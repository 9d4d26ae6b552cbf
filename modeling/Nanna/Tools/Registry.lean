import Mathlib.Data.Finset.Basic
import Nanna.Lib.Dict
import Nanna.Lib.Text

/-!
# The tool registry

The three maps of the registry, the calls that edit them, the resolution of a requested name and the
policy gate. An alias holds its own copy of the tool, and its target by name in a second map.

What a call does under one lock is a function of its own (`writeTool`, `writeAlias`, `writeTarget`); the
whole of `register_alias` is these in a row. The order in which a hash map is walked and the score of
a fuzzy match, a floating-point number, are the environment's. Debug assertions are not modelled.
-/

namespace Nanna.Tools

open Nanna.Lib

/-- A tool: the name of its definition, and its body. -/
structure Tool (β : Type) where
  name : Text
  body : β
deriving DecidableEq

/-! ## The policy -/

inductive DenyReason
  | blocked
  | notAllowed
deriving DecidableEq

def DenyReason.asStr : DenyReason → Text
  | .blocked => "blocked by tool policy".toList
  | .notAllowed => "not in the tool allowlist".toList

structure ToolPolicy where
  allow : Option (Finset Text)
  deny : Finset Text

namespace ToolPolicy

def allowAll : ToolPolicy := ⟨none, ∅⟩

def denyOnly (names : Finset Text) : ToolPolicy := ⟨none, names⟩

def check (policy : ToolPolicy) (canonicalName : Text) : Except DenyReason Unit :=
  if canonicalName ∈ policy.deny then .error .blocked
  else
    match policy.allow with
    | some allow => if canonicalName ∉ allow then .error .notAllowed else .ok ()
    | none => .ok ()

def permits (policy : ToolPolicy) (canonicalName : Text) : Bool := (policy.check canonicalName).isOk

end ToolPolicy

/-! ## The maps -/

structure Registry (β : Type) where
  tools : Dict Text (Tool β)
  aliases : Finset Text
  /-- The canonical target of each alias. -/
  aliasTargets : Dict Text Text

variable {β : Type}

namespace Registry

def new : Registry β := ⟨Table.empty, ∅, Table.empty⟩

def toolAt (r : Registry β) (name : Text) : Option (Tool β) := r.tools.find name

def targetOf (r : Registry β) (name : Text) : Option Text := r.aliasTargets.find name

def writeTool (r : Registry β) (name : Text) (tool : Tool β) : Registry β :=
  { r with tools := r.tools.set name tool }

def writeAlias (r : Registry β) (name : Text) : Registry β :=
  { r with aliases := insert name r.aliases }

def writeTarget (r : Registry β) (name target : Text) : Registry β :=
  { r with aliasTargets := r.aliasTargets.set name target }

def register (r : Registry β) (tool : Tool β) : Registry β := r.writeTool tool.name tool

def registerAlias (r : Registry β) (name target : Text) : Registry β :=
  match r.toolAt target with
  | some tool => ((r.writeTool name tool).writeAlias name).writeTarget name target
  | none => r

/-- The aliases that go with a name. -/
def dependentAliases (r : Registry β) (name : Text) : List Text :=
  (r.aliasTargets.rows.filter fun (a, target) => target = name ∧ a ≠ name).map (·.1)

def unregister (r : Registry β) (name : Text) : Registry β × Nat :=
  let dependent := r.dependentAliases name
  let removed := (name :: dependent).countP fun a => (r.toolAt a).isSome
  ({ tools := (r.tools.eraseAll dependent).erase name
     aliases := dependent.foldl Finset.erase r.aliases |>.erase name
     aliasTargets := (r.aliasTargets.eraseAll dependent).erase name }, removed)

/-- One step, whatever the name is. -/
def canonicalName (r : Registry β) (name : Text) : Text := (r.targetOf name).getD name

end Registry

/-! ## What the edits leave -/

section
variable {r : Registry β} {tool : Tool β} {name key target : Text}

@[simp] theorem Registry.toolAt_writeTool :
    (r.writeTool name tool).toolAt key = if name = key then some tool else r.toolAt key :=
  Dict.find_set

@[simp] theorem Registry.targetOf_writeTool : (r.writeTool name tool).targetOf key = r.targetOf key := rfl

@[simp] theorem Registry.toolAt_writeAlias : (r.writeAlias name).toolAt key = r.toolAt key := rfl

@[simp] theorem Registry.targetOf_writeAlias : (r.writeAlias name).targetOf key = r.targetOf key := rfl

@[simp] theorem Registry.toolAt_writeTarget : (r.writeTarget name target).toolAt key = r.toolAt key := rfl

@[simp] theorem Registry.targetOf_writeTarget :
    (r.writeTarget name target).targetOf key = if name = key then some target else r.targetOf key :=
  Dict.find_set

theorem Registry.mem_dependentAliases :
    key ∈ r.dependentAliases name ↔ r.targetOf key = some name ∧ key ≠ name := by
  unfold dependentAliases
  constructor
  · intro h
    obtain ⟨⟨key', target⟩, hmem, rfl⟩ := List.mem_map.mp h
    obtain ⟨hrow, hdecide⟩ := List.mem_filter.mp hmem
    obtain ⟨rfl, hne⟩ := of_decide_eq_true hdecide
    exact ⟨Dict.mem_rows.mp hrow, hne⟩
  · rintro ⟨htarget, hne⟩
    refine List.mem_map.mpr ⟨(key, name), List.mem_filter.mpr ⟨Dict.mem_rows.mpr htarget, ?_⟩, rfl⟩
    exact decide_eq_true ⟨rfl, hne⟩

/-- The name, and the aliases that go with it. -/
def Registry.Removed (r : Registry β) (name key : Text) : Prop :=
  key = name ∨ r.targetOf key = some name

instance : Decidable (r.Removed name key) := inferInstanceAs (Decidable (_ ∨ _))

theorem find_unregistered {ν : Type} (d : Dict Text ν) :
    Dict.find (Dict.erase (Dict.eraseAll d (r.dependentAliases name)) name) key =
      if r.Removed name key then none else Dict.find d key := by
  rw [Dict.find_erase, Dict.find_eraseAll]
  by_cases hname : name = key
  · rw [if_pos hname, if_pos (.inl hname.symm)]
  · rw [if_neg hname]
    by_cases htarget : r.targetOf key = some name
    · rw [if_pos (Registry.mem_dependentAliases.mpr ⟨htarget, fun h => hname h.symm⟩), if_pos (.inr htarget)]
    · rw [if_neg fun h => htarget (Registry.mem_dependentAliases.mp h).1, if_neg]
      exact fun h => h.elim (fun h => hname h.symm) htarget

theorem Registry.toolAt_unregister :
    (r.unregister name).1.toolAt key = if r.Removed name key then none else r.toolAt key :=
  find_unregistered r.tools

theorem Registry.targetOf_unregister :
    (r.unregister name).1.targetOf key = if r.Removed name key then none else r.targetOf key :=
  find_unregistered r.aliasTargets

end

/-! ## Resolution -/

def DIALECT_SYNONYMS : List (Text × Text) :=
  [("list_files", "list_dir"), ("list_directory", "list_dir"), ("ls", "list_dir"), ("dir", "list_dir"),
    ("glob", "find_files"), ("find_file", "find_files"), ("cat", "read_file"), ("open", "read_file"),
    ("open_file", "read_file"), ("create_file", "write_file"), ("save_file", "write_file"),
    ("run", "exec"), ("shell", "exec"), ("sh", "exec"), ("bash", "exec"), ("run_command", "exec"),
    ("run_shell_command", "exec"), ("execute", "exec"), ("execute_command", "exec"),
    ("task", "sub_agent"), ("sub-agent", "sub_agent"), ("subagent", "sub_agent")].map
      fun (source, target) => (source.toList, target.toList)

def dialectSynonym (name : Text) : Option Text :=
  (DIALECT_SYNONYMS.find? fun entry => entry.1 = name).map (·.2)

/-- What resolution takes from its surroundings. -/
structure ResolveEnv (β : Type) where
  lower : Text → Text
  /-- The order in which the map is walked. -/
  walk : List (Text × Tool β) → List (Text × Tool β)
  walk_perm : ∀ rows, (walk rows).Perm rows
  Score : Type
  zero : Score
  lt : Score → Score → Bool
  le : Score → Score → Bool
  score : Text → Text → Score
  /-- The best score is at least 0.7, and at least 0.1 above the second best. -/
  accepts : Score → Score → Bool

variable (env : ResolveEnv β)

/-- One entry of the fuzzy match: the best one so far, and the second best score. -/
def fuzzyStep (lower : Text) (found : Option (Text × env.Score × Tool β) × env.Score)
    (entry : Text × Tool β) : Option (Text × env.Score × Tool β) × env.Score :=
  let score := env.score lower (env.lower entry.1)
  match found with
  | (some best, second) =>
    if env.lt best.2.1 score then (some (entry.1, score, entry.2), best.2.1)
    else if env.lt second score && env.le score best.2.1 then (some best, score)
    else (some best, second)
  | (none, second) => (some (entry.1, score, entry.2), second)

def fuzzyMatch (lower : Text) (rows : List (Text × Tool β)) : Option (Text × Tool β) :=
  match rows.foldl (fuzzyStep env lower) (none, env.zero) with
  | (some (key, score, tool), second) => if env.accepts score second then some (key, tool) else none
  | (none, _) => none

/-- The key that a requested name resolves to, and the tool under it. -/
def Registry.resolveTool (r : Registry β) (name : Text) : Option (Text × Tool β) :=
  match r.toolAt name with
  | some tool => some (name, tool)
  | none =>
    let lower := env.lower name
    match (env.walk r.tools.rows).find? fun entry => env.lower entry.1 = lower with
    | some entry => some entry
    | none =>
      match (dialectSynonym lower).bind fun target => (r.toolAt target).map fun tool => (target, tool) with
      | some entry => some entry
      | none => fuzzyMatch env lower (env.walk r.tools.rows)

/-! ## Execution -/

inductive Execution (β : Type)
  | notFound (message : Text)
  | refused (reason : DenyReason) (message : Text)
  /-- The body of the tool runs. -/
  | ran (tool : Tool β)
deriving DecidableEq

/-- The gate, on the canonical name of what it is given. -/
def Registry.refuseByPolicy (r : Registry β) (policy : ToolPolicy) (resolvedName : Text) :
    Option (DenyReason × Text) :=
  let canonical := r.canonicalName resolvedName
  match policy.check canonical with
  | .error reason => some (reason, "Tool '".toList ++ canonical ++ "' is ".toList ++ reason.asStr ++
      " and cannot be called.".toList)
  | .ok () => none

def Registry.executeCall (r : Registry β) (policy : ToolPolicy) (name : Text) : Execution β :=
  match r.resolveTool env name with
  | none => .notFound ("Tool not found: ".toList ++ name ++
      ". Use discover_tools to see available tools.".toList)
  | some (resolvedName, tool) =>
    let canonical := r.canonicalName resolvedName
    match r.refuseByPolicy policy canonical with
    | some (reason, message) => .refused reason message
    | none => .ran tool

end Nanna.Tools
