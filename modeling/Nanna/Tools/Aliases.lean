import Nanna.Lib.Graph
import Nanna.Lib.Moves
import Nanna.Tools.Registry

/-!
# Aliases and the tools they stand for

`aliases_follow`: in every run of interleaved calls that are `Safe`, whenever no call is in progress each
alias runs the very tool that is registered under its target, and each tool that a name reaches is the
one that is registered under its own name.

`register_alias` takes four locks in turn, and other calls run between them: it reads the tool, and then
writes its copy, the mark and the target. `links` are the targets as they stand once the calls that have
written their copy are through, and the invariant (`Coupled`) is about these: along a link the tools are
the same, from each name links lead to the name of its tool, and what a call has read is still there. A
call is safe if it breaks no link and takes nothing away from a call in progress. A tool that is
registered again under a name with an alias, an alias that is made while its target goes, an alias of an
alias whose target goes, and two targets for one name leave an alias behind (`stale_runs`).
-/

namespace Nanna.Tools

open Nanna.Lib Relation

variable {β : Type}

inductive Stage
  /-- The tool is read. -/
  | read
  /-- The copy is in the map of tools. -/
  | stored
  /-- The name is in the set of aliases. -/
  | marked
deriving DecidableEq

/-- A call of `register_alias` in progress. -/
structure Pending (β : Type) where
  name : Text
  target : Text
  tool : Tool β
  stage : Stage

structure System (β : Type) where
  registry : Registry β
  pending : List (Pending β)

inductive Act (β : Type)
  | register (tool : Tool β)
  /-- All of it under the three locks. -/
  | unregister (name : Text)
  /-- The first lock of `register_alias`. -/
  | readTarget (name target : Text)
  /-- The next lock of a call in progress. -/
  | advance (i : Nat)

def step (s : System β) : Act β → Option (System β)
  | .register tool => some { s with registry := s.registry.register tool }
  | .unregister name => some { s with registry := (s.registry.unregister name).1 }
  | .readTarget name target =>
    match s.registry.toolAt target with
    | some tool => some { s with pending := s.pending ++ [⟨name, target, tool, .read⟩] }
    | none => some s
  | .advance i =>
    match s.pending[i]? with
    | none => none
    | some call =>
      match call.stage with
      | .read => some
          { registry := s.registry.writeTool call.name call.tool
            pending := s.pending.set i { call with stage := .stored } }
      | .stored => some
          { registry := s.registry.writeAlias call.name
            pending := s.pending.set i { call with stage := .marked } }
      | .marked => some
          { registry := s.registry.writeTarget call.name call.target
            pending := s.pending.eraseIdx i }

def start : System β := ⟨.new, []⟩

/-! ## What is claimed -/

/-- Each alias runs the tool under its target, and each name a tool that is registered. -/
structure Follows (r : Registry β) : Prop where
  atTarget : ∀ name target, r.targetOf name = some target →
    ∃ tool, r.toolAt name = some tool ∧ r.toolAt target = some tool
  atOwnName : ∀ name tool, r.toolAt name = some tool → r.toolAt tool.name = some tool

namespace System

variable (s : System β)

/-- The calls that have written their copy. -/
def written : List (Pending β) := s.pending.filter (·.stage ≠ .read)

/-- The calls that have only read their tool. -/
def reading : List (Pending β) := s.pending.filter (·.stage = .read)

/-- The targets, once the calls that have written their copy are through. -/
def links : List (Text × Text) :=
  s.written.map (fun call => (call.name, call.target)) ++
    s.registry.aliasTargets.rows.filter fun entry => ∀ call ∈ s.written, call.name ≠ entry.1

/-- The name may be made an alias of the target: it is one already, or one of itself, or no link leads to
it. -/
def Fresh (name target : Text) : Prop :=
  (name, target) ∈ s.links ∨ (name = target ∧ ∀ link ∈ s.links, link.1 ≠ name) ∨
    (name ≠ target ∧ (∀ link ∈ s.links, link.2 = name → link.1 = name) ∧
      ∀ call ∈ s.reading, call.target ≠ name)

end System

/-- The call breaks no link, and takes nothing away from a call in progress. -/
def Safe (s : System β) : Act β → Prop
  | .register tool =>
    (∀ link ∈ s.links, link.1 = tool.name ∨ link.2 = tool.name → link.1 = link.2) ∧
      ∀ call ∈ s.reading, call.target ≠ tool.name
  | .unregister name =>
    (∀ link ∈ s.links, s.registry.Removed name link.2 → s.registry.Removed name link.1) ∧
      (∀ call ∈ s.reading, ¬ s.registry.Removed name call.target) ∧
        ∀ call ∈ s.written, ¬ s.registry.Removed name call.name
  | .readTarget name target => (s.registry.toolAt target).isSome = true →
    (∀ call ∈ s.pending, call.name = name → call.target = target) ∧
      (∀ call ∈ s.reading, call.name = target → (target, call.target) ∈ s.links ∨ target = call.target) ∧
        s.Fresh name target
  | .advance _ => True

/-! ## The invariant -/

/-- The tools are the same along a link, and links lead from a name to that of its tool. -/
structure Coupled (s : System β) : Prop where
  along : ∀ {name target}, (name, target) ∈ s.links →
    ∃ tool, s.registry.toolAt name = some tool ∧ s.registry.toolAt target = some tool
  leads : ∀ {name tool}, s.registry.toolAt name = some tool →
    ReflTransGen (fun name target => (name, target) ∈ s.links) name tool.name
  copy : ∀ {call}, call ∈ s.reading → s.registry.toolAt call.target = some call.tool
  same : ∀ {call call'}, call ∈ s.pending → call' ∈ s.pending → call.name = call'.name →
    call.target = call'.target
  fresh : ∀ {call}, call ∈ s.reading → s.Fresh call.name call.target

variable {s s' : System β} {r : Registry β} {call call' : Pending β} {calls pre post : List (Pending β)}
  {tool : Tool β} {name target key : Text} {act : Act β}

theorem mem_written : call ∈ s.written ↔ call ∈ s.pending ∧ call.stage ≠ .read := by
  rw [System.written, List.mem_filter, decide_eq_true_iff]

theorem mem_reading : call ∈ s.reading ↔ call ∈ s.pending ∧ call.stage = .read := by
  rw [System.reading, List.mem_filter, decide_eq_true_iff]

theorem mem_links : (name, target) ∈ s.links ↔
    (∃ call ∈ s.written, call.name = name ∧ call.target = target) ∨
      s.registry.targetOf name = some target ∧ ∀ call ∈ s.written, call.name ≠ name := by
  unfold System.links
  rw [List.mem_append, List.mem_map, List.mem_filter, Dict.mem_rows, decide_eq_true_iff]
  simp only [Prod.mk.injEq]
  rfl

theorem start_coupled : Coupled (start : System β) where
  along h := by cases h
  leads h := by cases h
  copy h := by cases h
  same h := by cases h
  fresh h := by cases h

/-- With no call in progress the links are the targets. -/
theorem Coupled.follows (h : Coupled s) (hidle : s.pending = []) : Follows s.registry := by
  constructor
  · intro name target htarget
    refine h.along (mem_links.mpr (.inr ⟨htarget, fun call hcall => ?_⟩))
    rw [System.written, hidle] at hcall
    cases hcall
  · intro name tool htool
    have hleads := h.leads htool
    generalize tool.name = own at hleads
    induction hleads with
    | refl => exact htool
    | tail _ hlink ih =>
      obtain ⟨tool', hname, htarget⟩ := h.along hlink
      rw [ih] at hname
      rwa [← Option.some.inj hname] at htarget

/-! ## One call -/

theorem Coupled.links_unique {target' : Text} (h : Coupled s) (hlink : (name, target) ∈ s.links)
    (hlink' : (name, target') ∈ s.links) : target = target' := by
  rcases mem_links.mp hlink with ⟨call, hcall, rfl, rfl⟩ | ⟨htarget, hnone⟩ <;>
    rcases mem_links.mp hlink' with ⟨call', hcall', hname, rfl⟩ | ⟨htarget', hnone'⟩
  · exact h.same (mem_written.mp hcall).1 (mem_written.mp hcall').1 hname.symm
  · exact absurd rfl (hnone' call hcall)
  · exact absurd hname (hnone call' hcall')
  · exact Option.some.inj (htarget.symm.trans htarget')

/-- Calls in progress that have the names and targets of such calls. -/
theorem Coupled.same_of (h : Coupled s) {calls : List (Pending β)}
    (hcalls : ∀ call ∈ calls, ∃ old ∈ s.pending, old.name = call.name ∧ old.target = call.target)
    {call call' : Pending β} (hcall : call ∈ calls) (hcall' : call' ∈ calls)
    (hname : call.name = call'.name) : call.target = call'.target := by
  obtain ⟨old, hold, hn, ht⟩ := hcalls _ hcall
  obtain ⟨old', hold', hn', ht'⟩ := hcalls _ hcall'
  rw [← ht, ← ht']
  exact h.same hold hold' (hn.trans (hname.trans hn'.symm))

/-- Links and tools that stay, with no call reading that did not read before. -/
theorem Coupled.congr (h : Coupled s)
    (htools : ∀ name, s'.registry.toolAt name = s.registry.toolAt name)
    (hlinks : ∀ name target, (name, target) ∈ s'.links ↔ (name, target) ∈ s.links)
    (hreading : ∀ call ∈ s'.reading, call ∈ s.reading)
    (hpending : ∀ call ∈ s'.pending, ∃ call' ∈ s.pending, call'.name = call.name ∧ call'.target = call.target) :
    Coupled s' where
  along hlink := by
    rw [htools, htools]
    exact h.along ((hlinks _ _).mp hlink)
  leads htool := by
    rw [htools] at htool
    exact path_within (P := fun _ => True) (fun _ hlink => ⟨trivial, (hlinks _ _).mpr hlink⟩) trivial (h.leads htool)
  copy hcall := by
    rw [htools]
    exact h.copy (hreading _ hcall)
  same := h.same_of hpending
  fresh hcall := by
    rcases h.fresh (hreading _ hcall) with hlink | ⟨heq, hnone⟩ | ⟨hne, hinto, hread⟩
    · exact .inl ((hlinks _ _).mpr hlink)
    · exact .inr (.inl ⟨heq, fun link hlink => hnone link ((hlinks _ _).mp hlink)⟩)
    · exact .inr (.inr ⟨hne, fun link hlink => hinto link ((hlinks _ _).mp hlink),
        fun call hcall => hread call (hreading _ hcall)⟩)

theorem coupled_register (h : Coupled s) (hsafe : Safe s (.register tool)) :
    Coupled { s with registry := s.registry.register tool } where
  along {name target} hlink := by
    have hown : name = tool.name ∨ target = tool.name → name = target := hsafe.1 (name, target) hlink
    show ∃ tool', (s.registry.writeTool tool.name tool).toolAt name = some tool' ∧
      (s.registry.writeTool tool.name tool).toolAt target = some tool'
    rw [Registry.toolAt_writeTool, Registry.toolAt_writeTool]
    by_cases hname : tool.name = name
    · rw [← hown (.inl hname.symm), if_pos hname]
      exact ⟨tool, rfl, rfl⟩
    · rw [if_neg hname, if_neg fun htarget => hname (htarget.trans (hown (.inr htarget.symm)).symm)]
      exact h.along hlink
  leads {name tool'} htool := by
    change (s.registry.writeTool tool.name tool).toolAt name = some tool' at htool
    rw [Registry.toolAt_writeTool] at htool
    split at htool
    · rename_i hname
      cases htool
      rw [← hname]
    · exact h.leads htool
  copy {call} hcall := by
    show (s.registry.writeTool tool.name tool).toolAt call.target = some call.tool
    rw [Registry.toolAt_writeTool, if_neg (hsafe.2 call hcall).symm]
    exact h.copy hcall
  same := h.same
  fresh := h.fresh

/-- What is removed takes with it every link into it. -/
theorem mem_links_unregister (hsafe : Safe s (.unregister key)) : (name, target) ∈
    ({ s with registry := (s.registry.unregister key).1 } : System β).links ↔
      (name, target) ∈ s.links ∧ ¬ s.registry.Removed key name := by
  rw [mem_links, mem_links]
  show (∃ call ∈ s.written, _) ∨ ((s.registry.unregister key).1.targetOf name = some target ∧
    ∀ call ∈ s.written, _) ↔ _
  rw [Registry.targetOf_unregister]
  by_cases hremoved : s.registry.Removed key name
  · rw [if_pos hremoved]
    constructor
    · rintro (⟨call, hcall, rfl, -⟩ | ⟨hnone, -⟩)
      · exact absurd hremoved (hsafe.2.2 call hcall)
      · cases hnone
    · exact fun h => absurd hremoved h.2
  · rw [if_neg hremoved]
    exact ⟨fun h => ⟨h, hremoved⟩, fun h => h.1⟩

theorem coupled_unregister (h : Coupled s) (hsafe : Safe s (.unregister key)) :
    Coupled { s with registry := (s.registry.unregister key).1 } where
  along {name target} hlink := by
    obtain ⟨hlink, hname⟩ := (mem_links_unregister hsafe).mp hlink
    have htarget : ¬ s.registry.Removed key target := fun htarget =>
      hname (hsafe.1 (name, target) hlink htarget)
    show ∃ tool, (s.registry.unregister key).1.toolAt name = some tool ∧
      (s.registry.unregister key).1.toolAt target = some tool
    rw [Registry.toolAt_unregister, Registry.toolAt_unregister, if_neg hname, if_neg htarget]
    exact h.along hlink
  leads {name tool} htool := by
    change (s.registry.unregister key).1.toolAt name = some tool at htool
    rw [Registry.toolAt_unregister] at htool
    split at htool
    · cases htool
    · rename_i hname
      refine path_within (P := fun name => ¬ s.registry.Removed key name)
        (fun hname hlink => ⟨?_, (mem_links_unregister hsafe).mpr ⟨hlink, hname⟩⟩) hname (h.leads htool)
      exact fun htarget => hname (hsafe.1 _ hlink htarget)
  copy {call} hcall := by
    show (s.registry.unregister key).1.toolAt call.target = some call.tool
    rw [Registry.toolAt_unregister, if_neg (hsafe.2.1 call hcall)]
    exact h.copy hcall
  same := h.same
  fresh {call} hcall := by
    by_cases hname : s.registry.Removed key call.name
    · refine .inr (.inr ⟨?_, ?_, ?_⟩)
      · exact fun heq => hsafe.2.1 call hcall (heq ▸ hname)
      · rintro ⟨name, target⟩ hlink rfl
        obtain ⟨hlink, hnot⟩ := (mem_links_unregister hsafe).mp hlink
        exact absurd (hsafe.1 _ hlink hname) hnot
      · exact fun call' hcall' heq => hsafe.2.1 call' hcall' (heq ▸ hname)
    · rcases h.fresh hcall with hlink | ⟨heq, hnone⟩ | ⟨hne, hinto, hread⟩
      · exact .inl ((mem_links_unregister hsafe).mpr ⟨hlink, hname⟩)
      · exact .inr (.inl ⟨heq, fun link hlink => hnone link ((mem_links_unregister hsafe).mp hlink).1⟩)
      · exact .inr (.inr ⟨hne, fun link hlink => hinto link ((mem_links_unregister hsafe).mp hlink).1, hread⟩)

theorem mem_reading_append : call ∈ System.reading ⟨r, calls ++ [⟨name, target, tool, .read⟩]⟩ ↔
    call ∈ System.reading ⟨r, calls⟩ ∨ call = ⟨name, target, tool, .read⟩ := by
  rw [mem_reading, mem_reading, List.mem_append, List.mem_singleton]
  constructor
  · rintro ⟨hcall | rfl, hstage⟩
    · exact .inl ⟨hcall, hstage⟩
    · exact .inr rfl
  · rintro (⟨hcall, hstage⟩ | rfl)
    · exact ⟨.inl hcall, hstage⟩
    · exact ⟨.inr rfl, rfl⟩

theorem written_append : System.written ⟨r, calls ++ [⟨name, target, tool, .read⟩]⟩ =
    System.written ⟨r, calls⟩ := by
  rw [System.written, List.filter_append]
  exact List.append_nil _

theorem links_append : System.links ⟨r, calls ++ [⟨name, target, tool, .read⟩]⟩ =
    System.links ⟨r, calls⟩ := by
  rw [System.links, written_append]
  rfl

theorem coupled_readTarget (h : Coupled s) (hsafe : Safe s (.readTarget name target))
    (htool : s.registry.toolAt target = some tool) :
    Coupled { s with pending := s.pending ++ [⟨name, target, tool, .read⟩] } where
  along hlink := by
    rw [links_append] at hlink
    exact h.along hlink
  leads htool := by
    rw [links_append]
    exact h.leads htool
  copy hcall := by
    rcases mem_reading_append.mp hcall with hcall | rfl
    · exact h.copy hcall
    · exact htool
  same {call call'} hcall hcall' hname := by
    obtain ⟨hsame, -, -⟩ := hsafe (htool ▸ rfl)
    rcases List.mem_append.mp hcall with hcall | hcall <;>
      rcases List.mem_append.mp hcall' with hcall' | hcall'
    · exact h.same hcall hcall' hname
    · obtain rfl := List.mem_singleton.mp hcall'
      exact hsame call hcall hname
    · obtain rfl := List.mem_singleton.mp hcall
      exact (hsame call' hcall' hname.symm).symm
    · rw [List.mem_singleton.mp hcall, List.mem_singleton.mp hcall']
  fresh {call} hcall := by
    obtain ⟨-, hinto, hfresh⟩ := hsafe (htool ▸ rfl)
    unfold System.Fresh
    rw [links_append]
    rcases mem_reading_append.mp hcall with hcall | rfl
    · rcases h.fresh hcall with hlink | hself | ⟨hne, hnone, hread⟩
      · exact .inl hlink
      · exact .inr (.inl hself)
      · -- The new call reads this one's name only where this one changes nothing.
        by_cases heq : call.name = target
        · rcases hinto call hcall heq with hlink | hself
          · exact .inl (heq ▸ hlink)
          · exact absurd (heq.trans hself) hne
        · refine .inr (.inr ⟨hne, hnone, fun call' hcall' => ?_⟩)
          rcases mem_reading_append.mp hcall' with hcall' | rfl
          · exact hread call' hcall'
          · exact fun h => heq h.symm
    · rcases hfresh with hlink | hself | ⟨hne, hnone, hread⟩
      · exact .inl hlink
      · exact .inr (.inl hself)
      · refine .inr (.inr ⟨hne, hnone, fun call' hcall' => ?_⟩)
        rcases mem_reading_append.mp hcall' with hcall' | rfl
        · exact hread call' hcall'
        · exact hne.symm

/-- The copy is written: the name has the one link that its call makes. -/
theorem Coupled.store (h : Coupled s) (hcall : call ∈ s.reading)
    (htools : ∀ name, s'.registry.toolAt name =
      if call.name = name then some call.tool else s.registry.toolAt name)
    (hlinks : ∀ name target, (name, target) ∈ s'.links ↔
      if call.name = name then target = call.target else (name, target) ∈ s.links)
    (hreading : ∀ call' ∈ s'.reading, call' ∈ s.reading)
    (hpending : ∀ call' ∈ s'.pending, ∃ old ∈ s.pending, old.name = call'.name ∧ old.target = call'.target) :
    Coupled s' := by
  have hcopy : s.registry.toolAt call.target = some call.tool := h.copy hcall
  have hother : ∀ {name target}, call.name ≠ name →
      ((name, target) ∈ s'.links ↔ (name, target) ∈ s.links) := fun hne => by
    rw [hlinks, if_neg hne]
  -- Either nothing changes under the name, or nothing else depends on it.
  have hcases : s.registry.toolAt call.name = some call.tool ∧
        (∀ {target}, (call.name, target) ∈ s.links → target = call.target) ∨
      call.name ≠ call.target ∧ (∀ {name}, (name, call.name) ∈ s.links → name = call.name) ∧
        ∀ call' ∈ s.reading, call'.target ≠ call.name := by
    rcases h.fresh hcall with hlink | ⟨heq, hnone⟩ | ⟨hne, hinto, hread⟩
    · obtain ⟨tool, hname, htarget⟩ := h.along hlink
      rw [hcopy] at htarget
      exact .inl ⟨hname.trans htarget.symm, fun hlink' => h.links_unique hlink' hlink⟩
    · exact .inl ⟨heq ▸ hcopy, fun hlink => absurd rfl (hnone _ hlink)⟩
    · exact .inr ⟨hne, fun hlink => hinto _ hlink rfl, hread⟩
  have hinto : ∀ {name}, (name, call.name) ∈ s.links → call.name ≠ name →
      s.registry.toolAt call.name = some call.tool := fun hlink hne => by
    rcases hcases with ⟨hquiet, -⟩ | ⟨-, hnone, -⟩
    · exact hquiet
    · exact absurd (hnone hlink).symm hne
  refine ⟨fun {name target} hlink => ?_, fun {name tool} htool => ?_, fun {call'} hcall' => ?_,
    h.same_of hpending, fun {call'} hcall' => ?_⟩
  · rw [hlinks] at hlink
    rw [htools, htools]
    split at hlink
    · rename_i hname
      rw [if_pos hname, hlink, hcopy, ite_self]
      exact ⟨_, rfl, rfl⟩
    · rename_i hname
      obtain ⟨tool, hold, htarget⟩ := h.along hlink
      rw [if_neg hname, hold]
      refine ⟨tool, rfl, ?_⟩
      split
      · rename_i heq
        rw [← heq] at hlink htarget
        rw [← htarget, hinto hlink hname]
      · exact htarget
  · rw [htools] at htool
    rcases hcases with ⟨hquiet, hown⟩ | ⟨hne, hnone, -⟩
    · have hold : s.registry.toolAt name = some tool := by
        split at htool
        · rename_i hname
          rw [← hname, hquiet, htool]
        · exact htool
      refine path_within (P := fun _ => True) (fun {name target} _ hlink => ⟨trivial, ?_⟩) trivial
        (h.leads hold)
      rw [hlinks]
      split
      · rename_i hname
        exact hown (hname ▸ hlink)
      · exact hlink
    · have hpath : ∀ {name tool}, call.name ≠ name → s.registry.toolAt name = some tool →
          ReflTransGen (fun name target => (name, target) ∈ s'.links) name tool.name := fun hname hold =>
        path_within (P := fun name => call.name ≠ name) (fun hname hlink =>
          ⟨fun heq => hname (hnone (heq ▸ hlink)).symm, (hother hname).mpr hlink⟩) hname (h.leads hold)
      split at htool
      · rename_i hname
        obtain rfl := Option.some.inj htool
        refine .head ((hlinks _ _).mpr ?_) (hpath hne hcopy)
        rw [if_pos hname]
      · rename_i hname
        exact hpath hname htool
  · have hold : s.registry.toolAt call'.target = some call'.tool := h.copy (hreading _ hcall')
    rw [htools]
    split
    · rename_i heq
      rcases hcases with ⟨hquiet, -⟩ | ⟨-, -, hread⟩
      · rw [← heq, hquiet] at hold
        exact hold
      · exact absurd heq.symm (hread _ (hreading _ hcall'))
    · exact hold
  · by_cases hname : call.name = call'.name
    · refine .inl ((hlinks _ _).mpr ?_)
      rw [if_pos hname]
      exact (h.same (mem_reading.mp hcall).1 (mem_reading.mp (hreading _ hcall')).1 hname).symm
    · rcases h.fresh (hreading _ hcall') with hlink | ⟨heq, hfrom⟩ | ⟨hne, hto, hread⟩
      · exact .inl ((hother hname).mpr hlink)
      · refine .inr (.inl ⟨heq, fun link hlink hfirst => ?_⟩)
        obtain ⟨name, target⟩ := link
        obtain rfl : name = call'.name := hfirst
        exact hfrom _ ((hother hname).mp hlink) rfl
      · refine .inr (.inr ⟨hne, fun link hlink hsecond => ?_, fun old hold => hread _ (hreading _ hold)⟩)
        obtain ⟨name, target⟩ := link
        obtain rfl : target = call'.name := hsecond
        rw [hlinks] at hlink
        split at hlink
        · exact absurd hlink.symm (hread call hcall)
        · exact hto _ hlink rfl

/-! ## Steps and runs -/

theorem split_getElem? {i : Nat} (h : calls[i]? = some call) : ∃ pre post, calls = pre ++ call :: post ∧
    (∀ call', calls.set i call' = pre ++ call' :: post) ∧ calls.eraseIdx i = pre ++ post := by
  obtain ⟨hlt, rfl⟩ := List.getElem?_eq_some_iff.mp h
  refine ⟨calls.take i, calls.drop (i + 1), ?_, fun call' => ?_, List.eraseIdx_eq_take_drop_succ ..⟩
  · rw [← List.drop_eq_getElem_cons hlt, List.take_append_drop]
  · rw [List.set_eq_take_append_cons_drop, if_pos hlt]

theorem mem_middle {call' : Pending β} : call' ∈ pre ++ call :: post ↔ call' = call ∨ call' ∈ pre ++ post := by
  simp only [List.mem_append, List.mem_cons]
  exact or_left_comm

/-- The links, with one call in progress apart. -/
theorem mem_links_middle : (name, target) ∈ System.links ⟨r, pre ++ call :: post⟩ ↔
    (call.stage ≠ .read ∧ call.name = name ∧ call.target = target ∨
      ∃ call' ∈ pre ++ post, call'.stage ≠ .read ∧ call'.name = name ∧ call'.target = target) ∨
    r.targetOf name = some target ∧ (call.stage ≠ .read → call.name ≠ name) ∧
      ∀ call' ∈ pre ++ post, call'.stage ≠ .read → call'.name ≠ name := by
  rw [mem_links]
  simp only [mem_written, mem_middle]
  grind

theorem coupled_store (h : Coupled ⟨r, pre ++ call :: post⟩) (hstage : call.stage = .read) :
    Coupled ⟨r.writeTool call.name call.tool, pre ++ { call with stage := .stored } :: post⟩ := by
  have hcall : call ∈ System.reading ⟨r, pre ++ call :: post⟩ :=
    mem_reading.mpr ⟨mem_middle.mpr (.inl rfl), hstage⟩
  have hsame : ∀ call' ∈ pre ++ post, call'.name = call.name → call'.target = call.target :=
    fun call' hcall' => h.same (mem_middle.mpr (.inr hcall')) (mem_reading.mp hcall).1
  refine h.store hcall (fun _ => Registry.toolAt_writeTool) (fun name target => ?_) (fun call' hcall' => ?_)
    fun call' hcall' => ?_
  · rw [mem_links_middle, mem_links_middle, Registry.targetOf_writeTool]
    grind
  · obtain ⟨hmem, hread⟩ := mem_reading.mp hcall'
    rcases mem_middle.mp hmem with rfl | hmem
    · cases hread
    · exact mem_reading.mpr ⟨mem_middle.mpr (.inr hmem), hread⟩
  · rcases mem_middle.mp hcall' with rfl | hmem
    · exact ⟨call, mem_middle.mpr (.inl rfl), rfl, rfl⟩
    · exact ⟨call', mem_middle.mpr (.inr hmem), rfl, rfl⟩

theorem coupled_mark (h : Coupled ⟨r, pre ++ call :: post⟩) (hstage : call.stage = .stored) :
    Coupled ⟨r.writeAlias call.name, pre ++ { call with stage := .marked } :: post⟩ := by
  refine h.congr (fun _ => rfl) (fun name target => ?_) (fun call' hcall' => ?_) fun call' hcall' => ?_
  · rw [mem_links_middle, mem_links_middle, Registry.targetOf_writeAlias, hstage]
    grind
  · obtain ⟨hmem, hread⟩ := mem_reading.mp hcall'
    rcases mem_middle.mp hmem with rfl | hmem
    · cases hread
    · exact mem_reading.mpr ⟨mem_middle.mpr (.inr hmem), hread⟩
  · rcases mem_middle.mp hcall' with rfl | hmem
    · exact ⟨call, mem_middle.mpr (.inl rfl), rfl, rfl⟩
    · exact ⟨call', mem_middle.mpr (.inr hmem), rfl, rfl⟩

theorem coupled_finish (h : Coupled ⟨r, pre ++ call :: post⟩) (hstage : call.stage = .marked) :
    Coupled ⟨r.writeTarget call.name call.target, pre ++ post⟩ := by
  have hsame : ∀ call' ∈ pre ++ post, call'.name = call.name → call'.target = call.target :=
    fun call' hcall' => h.same (mem_middle.mpr (.inr hcall')) (mem_middle.mpr (.inl rfl))
  refine h.congr (fun _ => rfl) (fun name target => ?_) (fun call' hcall' => ?_) fun call' hcall' => ?_
  · rw [mem_links, mem_links_middle, Registry.targetOf_writeTarget, hstage]
    simp only [mem_written]
    grind
  · obtain ⟨hmem, hread⟩ := mem_reading.mp hcall'
    exact mem_reading.mpr ⟨mem_middle.mpr (.inr hmem), hread⟩
  · exact ⟨call', mem_middle.mpr (.inr hcall'), rfl, rfl⟩

theorem coupled_step (h : Coupled s) (hsafe : Safe s act) (hstep : step s act = some s') : Coupled s' := by
  cases act with
  | register tool =>
    obtain rfl := Option.some.inj hstep
    exact coupled_register h hsafe
  | unregister name =>
    obtain rfl := Option.some.inj hstep
    exact coupled_unregister h hsafe
  | readTarget name target =>
    rw [step] at hstep
    split at hstep
    · rename_i tool htool
      obtain rfl := Option.some.inj hstep
      exact coupled_readTarget h hsafe htool
    · obtain rfl := Option.some.inj hstep
      exact h
  | advance i =>
    rw [step] at hstep
    split at hstep
    · cases hstep
    rename_i call hcall
    obtain ⟨pre, post, hpending, hset, herase⟩ := split_getElem? hcall
    obtain ⟨r, pending⟩ := s
    obtain rfl : pending = _ := hpending
    split at hstep
    · rename_i hstage
      obtain rfl := Option.some.inj hstep
      rw [hset]
      exact coupled_store h hstage
    · rename_i hstage
      obtain rfl := Option.some.inj hstep
      rw [hset]
      exact coupled_mark h hstage
    · rename_i hstage
      obtain rfl := Option.some.inj hstep
      rw [herase]
      exact coupled_finish h hstage

/-- **Main result.** Whenever no call is in progress in a run of safe calls, the aliases follow their
tools. -/
theorem aliases_follow (h : Moves step Safe start s) (hidle : s.pending = []) : Follows s.registry :=
  (h.invariant (fun hsafe hstep hs => coupled_step hs hsafe hstep) start_coupled).follows hidle

/-- A call of `register_alias` that no other call interrupts. -/
theorem registerAlias_alone (htool : r.toolAt target = some tool) :
    runActs step (fun _ _ => True) ⟨r, []⟩ [.readTarget name target, .advance 0, .advance 0, .advance 0] =
      some ⟨r.registerAlias name target, []⟩ := by
  simp only [runActs, if_true, step, htool, Option.bind_some, List.nil_append, List.getElem?_cons_zero,
    List.set_cons_zero, List.eraseIdx_cons_zero, Registry.registerAlias]

instance (s : System β) (name target : Text) : Decidable (s.Fresh name target) :=
  inferInstanceAs (Decidable (_ ∨ _ ∨ _))

instance (s : System β) (act : Act β) : Decidable (Safe s act) :=
  match act with
  | .register _ => inferInstanceAs (Decidable (_ ∧ _))
  | .unregister _ => inferInstanceAs (Decidable (_ ∧ _))
  | .readTarget _ _ => inferInstanceAs (Decidable (_ → _ ∧ _))
  | .advance _ => isTrue trivial

def exec : Tool Nat := ⟨"exec".toList, 1⟩

/-- The tool as it is after an edit. -/
def edited : Tool Nat := ⟨"exec".toList, 2⟩

def readFile : Tool Nat := ⟨"read".toList, 3⟩

def bash : Text := "bash".toList

def shell : Text := "shell".toList

/-- Two aliases, one of the other, whose calls overlap with other calls; a tool that is replaced, and one
that goes with its alias. -/
def followingRun : List (Act Nat) :=
  [.register readFile, .register readFile, .register exec, .readTarget bash exec.name, .advance 0,
    .readTarget shell bash, .unregister readFile.name, .advance 0, .advance 1, .advance 0, .advance 0,
    .register readFile, .advance 0]

theorem aliases_follow_followingRun : ∃ s : System Nat,
    runActs step Safe start followingRun = some s ∧ s.pending = [] ∧ Follows s.registry := by
  have hrun : (runActs step Safe start followingRun).any (·.pending.isEmpty) = true := by
    decide
  obtain ⟨s, hs, hidle⟩ := (Option.any_eq_true _ _).mp hrun
  have hnil : s.pending = [] := List.isEmpty_iff.mp hidle
  exact ⟨s, hs, hnil, aliases_follow (.of_acts hs) hnil⟩

/-! ## Aliases that are left behind -/

/-- An alias whose tool is not the one under its target. -/
def hasStale (r : Registry Nat) : Bool :=
  r.aliasTargets.rows.any fun (name, target) => r.toolAt name ≠ r.toolAt target || r.toolAt name = none

theorem not_follows_of_hasStale {r : Registry Nat} (h : hasStale r = true) : ¬ Follows r := by
  intro hfollows
  obtain ⟨⟨name, target⟩, hrow, hstale⟩ := List.any_eq_true.mp h
  obtain ⟨tool, hname, htarget⟩ := hfollows.atTarget name target (Dict.mem_rows.mp hrow)
  simp [hname, htarget] at hstale

/-- `register_alias` from its first lock to its last. -/
def aliasCall (name target : Text) : List (Act Nat) :=
  [.readTarget name target, .advance 0, .advance 0, .advance 0]

/-- The tool is registered again; it goes while its alias is made; it goes with its alias, not with the
alias of that; and two calls make one name an alias of two tools. -/
def staleRuns : List (List (Act Nat)) :=
  [[.register exec] ++ aliasCall bash exec.name ++ [.register edited],
    [.register exec, .readTarget bash exec.name, .unregister exec.name, .advance 0, .advance 0, .advance 0],
    [.register exec] ++ aliasCall bash exec.name ++ aliasCall shell bash ++ [.unregister exec.name],
    [.register exec, .register readFile, .readTarget bash exec.name, .readTarget bash readFile.name,
      .advance 0, .advance 1, .advance 1, .advance 1, .advance 0, .advance 0]]

theorem stale_runs : staleRuns.Forall fun acts => ∃ s : System Nat,
    runActs step (fun _ _ => True) start acts = some s ∧ s.pending = [] ∧ ¬ Follows s.registry := by
  have hall : ∀ acts ∈ staleRuns, ((runActs step (fun _ _ => True) start acts).any fun s : System Nat =>
      s.pending.isEmpty && hasStale s.registry) = true := by
    decide
  refine List.forall_iff_forall_mem.mpr fun acts hacts => ?_
  obtain ⟨s, hs, hstale⟩ := (Option.any_eq_true _ _).mp (hall acts hacts)
  obtain ⟨hidle, hstale⟩ := Bool.and_eq_true_iff.mp hstale
  exact ⟨s, hs, List.isEmpty_iff.mp hidle, not_follows_of_hasStale hstale⟩

end Nanna.Tools
