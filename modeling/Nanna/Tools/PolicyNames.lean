import Nanna.Tools.Registry

/-!
# The name that the gate checks

`gate_honest_iff`: along a history of calls, whatever runs in any of its registries is permitted under
its own name, under every policy and for every requested name, exactly when each call meets a condition
(`Judged`): a tool is registered under a name that is its own canonical name, an alias is made of a
target whose canonical name is its tool's own and does not move what other aliases lead to, and what is
unregistered leaves no alias of its aliases behind.

Resolution ends at a key of the registry, by whichever of its steps (`toolAt_of_resolveTool`), and the
gate checks the canonical name of the key's canonical name. So a registry is honest exactly when this
name is that of the tool under the key (`honest_iff`). A name that was an alias, a third level of aliases,
an alias of itself and the alias of a deleted alias are judged as another tool (`misjudged_runs`).
-/

namespace Nanna.Tools

open Nanna.Lib

variable {β : Type} {env : ResolveEnv β} {r : Registry β} {policy : ToolPolicy} {tool : Tool β}
  {key name target : Text}

/-- What runs is permitted under its own name. -/
def Honest (env : ResolveEnv β) (r : Registry β) : Prop :=
  ∀ policy name tool, r.executeCall env policy name = .ran tool → policy.permits tool.name = true

/-- The gate checks the name of the tool under the key. -/
def Coherent (r : Registry β) : Prop :=
  ∀ key tool, r.toolAt key = some tool → r.canonicalName (r.canonicalName key) = tool.name

/-! ## What execution runs -/

/-- The best entry so far is one of these. -/
def BestAmong (rows : List (Text × Tool β)) (found : Option (Text × env.Score × Tool β) × env.Score) :
    Prop :=
  ∀ key score tool, found.1 = some (key, score, tool) → (key, tool) ∈ rows

theorem bestAmong_fuzzyStep {rows : List (Text × Tool β)} {lower : Text} {entry : Text × Tool β}
    {found : Option (Text × env.Score × Tool β) × env.Score} (h : BestAmong rows found)
    (hentry : entry ∈ rows) : BestAmong rows (fuzzyStep env lower found entry) := by
  obtain ⟨best, second⟩ := found
  unfold fuzzyStep
  cases best with
  | none =>
    rintro key score tool ⟨⟩
    exact hentry
  | some best =>
    dsimp only
    split
    · rintro key score tool ⟨⟩
      exact hentry
    · split
      · exact h
      · exact h

theorem mem_of_fuzzyMatch {rows : List (Text × Tool β)} {lower : Text}
    (h : fuzzyMatch env lower rows = some (key, tool)) : (key, tool) ∈ rows := by
  have hbest : BestAmong rows (rows.foldl (fuzzyStep env lower) (none, env.zero)) :=
    List.foldlRecOn rows _ (fun _ _ _ h => nomatch h) fun _ hfound _ hentry =>
      bestAmong_fuzzyStep hfound hentry
  unfold fuzzyMatch at h
  split at h
  · rename_i key' score tool' second hfold
    split at h
    · cases h
      exact hbest _ _ _ (congrArg Prod.fst hfold)
    · cases h
  · cases h

/-- Every step of the resolution ends at a key of the registry, with the tool under it. -/
theorem toolAt_of_resolveTool (h : r.resolveTool env name = some (key, tool)) :
    r.toolAt key = some tool := by
  have hrows : ∀ entry ∈ env.walk r.tools.rows, r.toolAt entry.1 = some entry.2 := fun entry hentry =>
    Dict.mem_rows.mp ((env.walk_perm _).mem_iff.mp hentry)
  unfold Registry.resolveTool at h
  split at h
  · rename_i tool' hexact
    cases h
    exact hexact
  dsimp only at h
  split at h
  · rename_i entry hcase
    cases h
    exact hrows _ (List.mem_of_find?_eq_some hcase)
  split at h
  · rename_i entry hsynonym
    obtain ⟨target, -, htarget⟩ := Option.bind_eq_some_iff.mp hsynonym
    obtain ⟨tool', htool, rfl⟩ := Option.map_eq_some_iff.mp htarget
    cases h
    exact htool
  · exact hrows _ (mem_of_fuzzyMatch h)

theorem permits_iff : policy.permits name = true ↔ policy.check name = .ok () := by
  unfold ToolPolicy.permits
  cases policy.check name with
  | error e => exact ⟨nofun, nofun⟩
  | ok u => exact ⟨fun _ => rfl, fun _ => rfl⟩

theorem refuseByPolicy_eq_none : r.refuseByPolicy policy name = none ↔
    policy.permits (r.canonicalName name) = true := by
  rw [permits_iff]
  unfold Registry.refuseByPolicy
  dsimp only
  cases policy.check (r.canonicalName name) with
  | error e => exact ⟨nofun, nofun⟩
  | ok u => exact ⟨fun _ => rfl, fun _ => rfl⟩

/-- What runs is the tool under the key, permitted under the name that the gate checks. -/
theorem executeCall_eq_ran : r.executeCall env policy name = .ran tool ↔
    ∃ key, r.resolveTool env name = some (key, tool) ∧
      policy.permits (r.canonicalName (r.canonicalName key)) = true := by
  unfold Registry.executeCall
  cases r.resolveTool env name with
  | none => exact ⟨nofun, nofun⟩
  | some entry =>
    obtain ⟨key, tool'⟩ := entry
    have hgate : r.refuseByPolicy policy (r.canonicalName key) = none ↔ _ := refuseByPolicy_eq_none
    dsimp only
    cases hrefused : r.refuseByPolicy policy (r.canonicalName key) with
    | none =>
      constructor
      · rintro ⟨⟩
        exact ⟨key, rfl, hgate.mp hrefused⟩
      · rintro ⟨key', ⟨⟩, -⟩
        rfl
    | some refusal =>
      refine ⟨nofun, ?_⟩
      rintro ⟨key', ⟨⟩, hpermits⟩
      rw [hgate.mpr hpermits] at hrefused
      cases hrefused

theorem permits_denyOnly {names : Finset Text} :
    (ToolPolicy.denyOnly names).permits name = true ↔ name ∉ names := by
  rw [permits_iff, ToolPolicy.check, ToolPolicy.denyOnly]
  dsimp only
  split
  · rename_i h
    exact ⟨nofun, fun hnot => absurd h hnot⟩
  · rename_i h
    exact ⟨fun _ => h, fun _ => rfl⟩

theorem honest_iff : Honest env r ↔ Coherent r := by
  constructor
  · intro h key tool htool
    by_contra hname
    have hresolve : r.resolveTool env key = some (key, tool) := by
      rw [Registry.resolveTool, htool]
    have hpermits : (ToolPolicy.denyOnly {tool.name}).permits (r.canonicalName (r.canonicalName key)) =
        true := permits_denyOnly.mpr fun hmem => hname (Finset.mem_singleton.mp hmem)
    have hran : (ToolPolicy.denyOnly {tool.name}).permits tool.name = true :=
      h _ key tool (executeCall_eq_ran.mpr ⟨key, hresolve, hpermits⟩)
    exact permits_denyOnly.mp hran (Finset.mem_singleton_self _)
  · intro h policy name tool hran
    obtain ⟨key, hresolve, hpermits⟩ := executeCall_eq_ran.mp hran
    rwa [h key tool (toolAt_of_resolveTool hresolve)] at hpermits

/-! ## Histories -/

inductive RegistryCall (β : Type)
  | register (tool : Tool β)
  | registerAlias (name target : Text)
  | unregister (name : Text)

def RegistryCall.apply (r : Registry β) : RegistryCall β → Registry β
  | .register tool => r.register tool
  | .registerAlias name target => r.registerAlias name target
  | .unregister name => (r.unregister name).1

/-- The call leaves every key with the name of its tool. -/
def RegistryCall.Judged (r : Registry β) : RegistryCall β → Prop
  | .register tool => r.canonicalName (r.canonicalName tool.name) = tool.name
  | .registerAlias name target => ∀ tool, r.toolAt target = some tool →
      (if name = target then tool.name = target else r.canonicalName target = tool.name) ∧
        ∀ key, (r.toolAt key).isSome = true → key ≠ name → r.canonicalName key = name →
          r.canonicalName name = target
  | .unregister name => ∀ key, (r.toolAt key).isSome = true → ¬ r.Removed name key →
      ¬ r.Removed name (r.canonicalName key)

variable {call : RegistryCall β} {calls : List (RegistryCall β)}

theorem canonicalName_of_targetOf (h : r.targetOf name = some target) : r.canonicalName name = target := by
  rw [Registry.canonicalName, h]
  rfl

theorem coherent_register (h : Coherent r) :
    Coherent (r.register tool) ↔ RegistryCall.Judged r (.register tool) := by
  constructor
  · intro hafter
    refine hafter tool.name tool ?_
    rw [Registry.register, Registry.toolAt_writeTool, if_pos rfl]
  · intro hjudged key tool' htool
    rw [Registry.register, Registry.toolAt_writeTool] at htool
    split at htool
    · rename_i hkey
      cases htool
      exact hkey ▸ hjudged
    · exact h key tool' htool

theorem coherent_registerAlias (h : Coherent r) :
    Coherent (r.registerAlias name target) ↔ RegistryCall.Judged r (.registerAlias name target) := by
  unfold Registry.registerAlias RegistryCall.Judged
  cases htarget : r.toolAt target with
  | none => exact ⟨fun _ _ hsome => (nomatch htarget.symm.trans hsome), fun _ => h⟩
  | some tool =>
    have htools : ∀ key, (((r.writeTool name tool).writeAlias name).writeTarget name target).toolAt key =
        if name = key then some tool else r.toolAt key := fun key => Registry.toolAt_writeTool
    have hcanonical : ∀ key, (((r.writeTool name tool).writeAlias name).writeTarget name target).canonicalName
        key = if name = key then target else r.canonicalName key := fun key => by
      rw [Registry.canonicalName, Registry.targetOf_writeTarget]
      split <;> rfl
    constructor
    · intro hafter tool' hsome
      obtain rfl := Option.some.inj (htarget.symm.trans hsome)
      refine ⟨?_, fun key hkey hne hname => ?_⟩
      · have hself := hafter name tool ((htools name).trans (if_pos rfl))
        rw [hcanonical name, if_pos rfl, hcanonical target] at hself
        split
        · rename_i heq
          rw [if_pos heq] at hself
          exact hself.symm
        · rename_i heq
          rwa [if_neg heq] at hself
      · obtain ⟨tool', htool⟩ := Option.isSome_iff_exists.mp hkey
        have hother := hafter key tool' ((htools key).trans ((if_neg hne.symm).trans htool))
        rw [hcanonical key, if_neg hne.symm, hname, hcanonical name, if_pos rfl] at hother
        rw [← hname, h key tool' htool, hother]
    · intro hjudged key tool' htool
      obtain ⟨hown, hothers⟩ := hjudged tool htarget
      rw [htools key] at htool
      split at htool
      · rename_i hkey
        obtain rfl := hkey
        cases htool
        rw [hcanonical name, if_pos rfl, hcanonical target]
        split
        · rename_i heq
          rw [if_pos heq] at hown
          exact hown.symm
        · rename_i heq
          rwa [if_neg heq] at hown
      · rename_i hne
        rw [hcanonical key, if_neg hne, hcanonical (r.canonicalName key)]
        split
        · rename_i hname
          have hmoved := hothers key (htool ▸ rfl) (fun h => hne h.symm) hname.symm
          rw [← h key tool' htool, ← hname, hmoved]
        · exact h key tool' htool

theorem coherent_unregister (h : Coherent r) :
    Coherent (r.unregister name).1 ↔ RegistryCall.Judged r (.unregister name) := by
  have hcanonical : ∀ key, ¬ r.Removed name key →
      (r.unregister name).1.canonicalName key = r.canonicalName key := fun key hkey => by
    rw [Registry.canonicalName, Registry.targetOf_unregister, if_neg hkey]
    rfl
  constructor
  · intro hafter key hsome hkey hremoved
    obtain ⟨tool, htool⟩ := Option.isSome_iff_exists.mp hsome
    have hname := hafter key tool (Registry.toolAt_unregister.trans ((if_neg hkey).trans htool))
    have hgone : (r.unregister name).1.canonicalName (r.canonicalName key) = r.canonicalName key := by
      rw [Registry.canonicalName, Registry.targetOf_unregister, if_pos hremoved]
      rfl
    rw [hcanonical key hkey, hgone, ← h key tool htool] at hname
    have hnot : r.canonicalName key ≠ name := by
      intro hcanon
      unfold Registry.canonicalName at hcanon
      cases htarget : r.targetOf key with
      | none =>
        rw [htarget] at hcanon
        exact hkey (.inl hcanon)
      | some target =>
        rw [htarget] at hcanon
        exact hkey (.inr (htarget.trans (congrArg some hcanon)))
    rcases hremoved with hcanon | htarget
    · exact hnot hcanon
    · exact hnot (hname.trans (canonicalName_of_targetOf htarget))
  · intro hjudged key tool htool
    rw [Registry.toolAt_unregister] at htool
    split at htool
    · cases htool
    · rename_i hkey
      rw [hcanonical key hkey, hcanonical _ (hjudged key (htool ▸ rfl) hkey)]
      exact h key tool htool

theorem coherent_apply_iff (h : Coherent r) : Coherent (call.apply r) ↔ call.Judged r := by
  cases call with
  | register tool => exact coherent_register h
  | registerAlias name target => exact coherent_registerAlias h
  | unregister name => exact coherent_unregister h

/-- Each call of a history meets its condition. -/
def EachJudged : Registry β → List (RegistryCall β) → Prop
  | _, [] => True
  | r, call :: calls => call.Judged r ∧ EachJudged (call.apply r) calls

/-- The registry behind a history of calls. -/
def runCalls (r : Registry β) (calls : List (RegistryCall β)) : Registry β :=
  calls.foldl RegistryCall.apply r

theorem each_judged_iff (h : Coherent r) :
    (∀ before, before <+: calls → Coherent (runCalls r before)) ↔ EachJudged r calls := by
  induction calls generalizing r with
  | nil =>
    refine ⟨fun _ => trivial, fun _ before hbefore => ?_⟩
    obtain rfl := List.prefix_nil.mp hbefore
    exact h
  | cons call calls ih =>
    constructor
    · intro hall
      have hcall : Coherent (call.apply r) := hall [call] ⟨calls, rfl⟩
      refine ⟨(coherent_apply_iff h).mp hcall, (ih hcall).mp fun before hbefore => ?_⟩
      exact hall (call :: before) (List.prefix_cons_inj call |>.mpr hbefore)
    · rintro ⟨hjudged, hrest⟩ before hbefore
      have hcall : Coherent (call.apply r) := (coherent_apply_iff h).mpr hjudged
      cases before with
      | nil => exact h
      | cons call' before =>
        obtain ⟨rfl, hrestBefore⟩ := List.cons_prefix_cons.mp hbefore
        exact (ih hcall).mpr hrest before hrestBefore

theorem coherent_new : Coherent (.new : Registry β) := nofun

/-- **Main result.** What runs in the registries of a history is permitted under its own name exactly
when each call meets its condition. -/
theorem gate_honest_iff (env : ResolveEnv β) (calls : List (RegistryCall β)) :
    (∀ before, before <+: calls → Honest env (runCalls .new before)) ↔ EachJudged .new calls := by
  rw [← each_judged_iff coherent_new]
  exact forall_congr' fun before => forall_congr' fun _ => honest_iff

/-! ## Names that are judged as another tool -/

/-- Maps walked in their order, and scores that accept nothing. -/
def plainEnv : ResolveEnv Nat where
  lower t := t.map Char.toLower
  walk rows := rows
  walk_perm _ := .refl _
  Score := Unit
  zero := ()
  lt _ _ := false
  le _ _ := false
  score _ _ := ()
  accepts _ _ := false

/-- Histories that register the tool, and a name that reaches it: a tool registered under the name of an
alias; a third level of aliases; the alias of an alias that went with the tool it stood for; an alias of
itself. -/
def misjudged (tool other : Tool Nat) (a b c : Text) : List (List (RegistryCall Nat) × Text) :=
  [([.register other, .registerAlias tool.name other.name, .register tool], tool.name),
    ([.register tool, .registerAlias a tool.name, .registerAlias b a, .registerAlias c b], c),
    ([.register tool, .registerAlias a tool.name, .registerAlias b a, .unregister tool.name], b),
    ([.register tool, .registerAlias a tool.name, .registerAlias a a], a)]

/-- The tool runs, and the policy that is in force denies it. -/
theorem misjudged_runs :
    let tool : Tool Nat := ⟨"exec".toList, 1⟩
    ∀ history ∈ misjudged tool ⟨"read".toList, 2⟩ "a".toList "b".toList "c".toList,
      (runCalls .new history.1).executeCall plainEnv (.denyOnly {tool.name}) history.2 = .ran tool ∧
        (ToolPolicy.denyOnly {tool.name}).permits tool.name = false := by
  decide

end Nanna.Tools
