import Nanna.Lib.Json
import Nanna.Lib.Table
import Nanna.Llm.Events

/-!
# Tool names through the OAuth rename

`survives_iff`: every tool of a list is dispatched under the name it was registered by, and no two
are sent under one name, exactly when the names are distinct in lower case and each leads back to
itself (`LeadsBack`): it is not in the table, or is there under its own name, or is the one pattern
that its canonical name stands for. `read_file`, `write_file`, `edit_file`, `exec`, `shell` and
`list_dir` are none of these: `Read` comes back as `read` (`read_file_lost`).
-/

namespace Nanna.Llm

open Nanna.Lib

/-- `str::to_lowercase` and `char::to_uppercase`. -/
structure Casing where
  lower : Text → Text
  upper : Char → Text
  lower_ascii : ∀ {t : Text}, (∀ c ∈ t, c.toNat < 128) → lower t = t.map Char.toLower

structure ToolDefinition where
  name : Text
  description : Text
  inputSchema : Json

/-- Patterns, and the canonical names they are sent under. -/
def CLAUDE_CODE_TOOLS : List (Text × Text) :=
  [("read", "Read"), ("read_file", "Read"), ("write", "Write"), ("write_file", "Write"),
    ("edit", "Edit"), ("edit_file", "Edit"), ("bash", "Bash"), ("exec", "Bash"), ("shell", "Bash"),
    ("grep", "Grep"), ("glob", "Glob"), ("list_dir", "Glob"), ("ask_user", "AskUserQuestion"),
    ("web_fetch", "WebFetch"), ("web_search", "WebSearch"),
    ("notebook_edit", "NotebookEdit")].map fun (pattern, canonical) =>
      (pattern.toList, canonical.toList)

variable (cs : Casing)

/-- The first character in upper case. -/
def capitalize : Text → Text
  | [] => []
  | c :: t => cs.upper c ++ t

def toClaudeCodeToolName (name : Text) : Text :=
  match CLAUDE_CODE_TOOLS.find? fun entry => entry.1 = cs.lower name with
  | some entry => entry.2
  | none => capitalize cs name

def fromClaudeCodeToolName (name : Text) (originalTools : List ToolDefinition) : Text :=
  match originalTools.find? fun tool => cs.lower tool.name = cs.lower name with
  | some tool => tool.name
  | none =>
    match CLAUDE_CODE_TOOLS.find? fun entry => entry.2 = name with
    | some entry => entry.1
    | none => name

/-- The tools of the OAuth form of a request. -/
def renamed (tools : List ToolDefinition) : List ToolDefinition :=
  tools.map fun tool => { tool with name := toClaudeCodeToolName cs tool.name }

/-- A streamed tool name is mapped back. -/
def restoreOauthToolName (originalTools : List ToolDefinition) : StreamEvent → StreamEvent
  | .contentBlockStart index contentType toolId (some name) =>
    .contentBlockStart index contentType toolId (some (fromClaudeCodeToolName cs name originalTools))
  | event => event

/-! ## The table -/

variable {cs} {tools : List ToolDefinition} {tool : ToolDefinition} {name : Text}
  {entry : Text × Text}

/-- The patterns are distinct. -/
def patternTable : Table (Prod.fst : Text × Text → Text) := ⟨CLAUDE_CODE_TOOLS, by decide⟩

theorem lower_pattern (h : entry ∈ CLAUDE_CODE_TOOLS) : cs.lower entry.1 = entry.1 := by
  have htable : ∀ entry ∈ CLAUDE_CODE_TOOLS,
      entry.1.all (fun c => c.toNat < 128) = true ∧ entry.1.map Char.toLower = entry.1 := by
    decide
  obtain ⟨hascii, hlower⟩ := htable entry h
  rw [cs.lower_ascii fun c hc => of_decide_eq_true (List.all_eq_true.mp hascii c hc), hlower]

theorem to_of_pattern (h : entry ∈ CLAUDE_CODE_TOOLS) (hname : entry.1 = cs.lower name) :
    toClaudeCodeToolName cs name = entry.2 := by
  have hfind : CLAUDE_CODE_TOOLS.find? (fun e => e.1 = cs.lower name) = some entry :=
    hname ▸ Table.mem_rows.mp (show entry ∈ patternTable.rows from h)
  rw [toClaudeCodeToolName, hfind]

theorem to_of_plain (h : ∀ entry ∈ CLAUDE_CODE_TOOLS, entry.1 ≠ cs.lower name) :
    toClaudeCodeToolName cs name = capitalize cs name := by
  have hfind : CLAUDE_CODE_TOOLS.find? (fun e => e.1 = cs.lower name) = none :=
    List.find?_eq_none.mpr fun entry hentry => by simpa using h entry hentry
  rw [toClaudeCodeToolName, hfind]

/-- Any tool that differs only by case is taken before the table is asked. -/
theorem from_of_lower (h : tool ∈ tools) (hname : cs.lower tool.name = cs.lower name) :
    ∃ first ∈ tools, cs.lower first.name = cs.lower name ∧
      fromClaudeCodeToolName cs name tools = first.name := by
  unfold fromClaudeCodeToolName
  cases hfind : tools.find? fun tool => cs.lower tool.name = cs.lower name with
  | none => simpa [hname] using List.find?_eq_none.mp hfind tool h
  | some first =>
    exact ⟨first, List.mem_of_find?_eq_some hfind, by simpa using List.find?_some hfind, rfl⟩

theorem from_congr {name' : Text} (h : tool ∈ tools) (hname : cs.lower tool.name = cs.lower name)
    (heq : cs.lower name = cs.lower name') :
    fromClaudeCodeToolName cs name tools = fromClaudeCodeToolName cs name' tools := by
  unfold fromClaudeCodeToolName
  rw [← heq]
  cases hfind : tools.find? fun tool => cs.lower tool.name = cs.lower name with
  | none => simpa [hname] using List.find?_eq_none.mp hfind tool h
  | some first => rfl

theorem from_of_free (h : ∀ tool ∈ tools, cs.lower tool.name ≠ cs.lower name) :
    fromClaudeCodeToolName cs name tools =
      ((CLAUDE_CODE_TOOLS.find? fun e => e.2 = name).map Prod.fst).getD name := by
  have hfind : tools.find? (fun tool => cs.lower tool.name = cs.lower name) = none :=
    List.find?_eq_none.mpr fun tool htool => by simpa using h tool htool
  unfold fromClaudeCodeToolName
  rw [hfind]
  cases CLAUDE_CODE_TOOLS.find? fun e => e.2 = name with
  | none => rfl
  | some entry => rfl

/-! ## The condition -/

variable (cs)

/-- Every name comes back as it was, and no two are sent as one. -/
def Survives (tools : List ToolDefinition) : Prop :=
  (∀ tool ∈ tools, fromClaudeCodeToolName cs (toClaudeCodeToolName cs tool.name) tools = tool.name) ∧
    ((renamed cs tools).map ToolDefinition.name).Nodup

/-- A name whose canonical form leads back to it. -/
inductive LeadsBack (tools : List ToolDefinition) (name : Text) : Prop
  /-- No pattern: the name is only capitalized, and in lower case that makes no difference. -/
  | plain (hplain : ∀ entry ∈ CLAUDE_CODE_TOOLS, entry.1 ≠ cs.lower name)
      (hcapital : cs.lower (capitalize cs name) = cs.lower name)
  /-- The canonical name is the name, but for case. -/
  | cased (entry : Text × Text) (hentry : entry ∈ CLAUDE_CODE_TOOLS) (hname : entry.1 = cs.lower name)
      (hcase : cs.lower entry.2 = entry.1)
  /-- The name is the pattern that a canonical name stands for, and no tool has that name. -/
  | aliased (entry : Text × Text)
      (hfirst : CLAUDE_CODE_TOOLS.find? (fun e => e.2 = entry.2) = some entry)
      (hname : name = entry.1) (hfree : ∀ tool ∈ tools, cs.lower tool.name ≠ cs.lower entry.2)

variable {cs}

theorem leadsBack_of_returns (htool : tool ∈ tools)
    (h : fromClaudeCodeToolName cs (toClaudeCodeToolName cs tool.name) tools = tool.name) :
    LeadsBack cs tools tool.name := by
  by_cases hpattern : ∃ entry ∈ CLAUDE_CODE_TOOLS, entry.1 = cs.lower tool.name
  · obtain ⟨entry, hentry, hname⟩ := hpattern
    rw [to_of_pattern hentry hname] at h
    by_cases htaken : ∃ other ∈ tools, cs.lower other.name = cs.lower entry.2
    · obtain ⟨other, hother, hlower⟩ := htaken
      obtain ⟨first, -, hfirst, heq⟩ := from_of_lower hother hlower
      rw [← heq, h] at hfirst
      exact .cased entry hentry hname (hfirst.symm.trans hname.symm)
    · have hfree : ∀ other ∈ tools, cs.lower other.name ≠ cs.lower entry.2 :=
        fun other hother hlower => htaken ⟨other, hother, hlower⟩
      rw [from_of_free hfree] at h
      cases hfind : CLAUDE_CODE_TOOLS.find? fun e => e.2 = entry.2 with
      | none =>
        have hnone := List.find?_eq_none.mp hfind entry hentry
        simp at hnone
      | some back =>
        rw [hfind] at h
        have hback : back.1 = tool.name := h
        have hmem := List.mem_of_find?_eq_some hfind
        have hsame : back.2 = entry.2 := by simpa using List.find?_some hfind
        refine .aliased back ?_ hback.symm fun other hother => ?_
        · rw [hsame]
          exact hfind
        · rw [hsame]
          exact hfree other hother
  · have hplain : ∀ entry ∈ CLAUDE_CODE_TOOLS, entry.1 ≠ cs.lower tool.name :=
      fun entry hentry hname => hpattern ⟨entry, hentry, hname⟩
    rw [to_of_plain hplain] at h
    by_cases htaken : ∃ other ∈ tools, cs.lower other.name = cs.lower (capitalize cs tool.name)
    · obtain ⟨other, hother, hlower⟩ := htaken
      obtain ⟨first, -, hfirst, heq⟩ := from_of_lower hother hlower
      rw [← heq, h] at hfirst
      exact .plain hplain hfirst.symm
    · have hfree : ∀ other ∈ tools, cs.lower other.name ≠ cs.lower (capitalize cs tool.name) :=
        fun other hother hlower => htaken ⟨other, hother, hlower⟩
      rw [from_of_free hfree] at h
      cases hfind : CLAUDE_CODE_TOOLS.find? fun e => e.2 = capitalize cs tool.name with
      | none =>
        rw [hfind] at h
        exact absurd (congrArg cs.lower (show tool.name = capitalize cs tool.name from h.symm))
          (hfree tool htool)
      | some back =>
        rw [hfind] at h
        have hback : back.1 = tool.name := h
        have hmem := List.mem_of_find?_eq_some hfind
        exact absurd (by rw [← hback, lower_pattern hmem]) (hplain back hmem)

/-- A name that comes back as itself, by what is written in it. -/
theorem LeadsBack.plain_of_plain (h : LeadsBack cs tools tool.name)
    (hplain : ∀ entry ∈ CLAUDE_CODE_TOOLS, entry.1 ≠ cs.lower tool.name) :
    cs.lower (capitalize cs tool.name) = cs.lower tool.name := by
  cases h with
  | plain _ hcapital => exact hcapital
  | cased entry hentry hname _ => exact absurd hname (hplain entry hentry)
  | aliased entry hfirst hname _ =>
    have hmem := List.mem_of_find?_eq_some hfirst
    exact absurd (by rw [hname, lower_pattern hmem]) (hplain entry hmem)

/-- Names that are the same in lower case are sent as one, where they come back. -/
theorem to_eq_of_lower {other : ToolDefinition} (htool : tool ∈ tools) (hother : other ∈ tools)
    (h : ∀ tool ∈ tools,
      fromClaudeCodeToolName cs (toClaudeCodeToolName cs tool.name) tools = tool.name)
    (hlower : cs.lower tool.name = cs.lower other.name) :
    toClaudeCodeToolName cs tool.name = toClaudeCodeToolName cs other.name := by
  by_cases hpattern : ∃ entry ∈ CLAUDE_CODE_TOOLS, entry.1 = cs.lower tool.name
  · obtain ⟨entry, hentry, hname⟩ := hpattern
    rw [to_of_pattern hentry hname, to_of_pattern hentry (hname.trans hlower)]
  · have hplain : ∀ entry ∈ CLAUDE_CODE_TOOLS, entry.1 ≠ cs.lower tool.name :=
      fun entry hentry hname => hpattern ⟨entry, hentry, hname⟩
    have hplain' : ∀ entry ∈ CLAUDE_CODE_TOOLS, entry.1 ≠ cs.lower other.name :=
      fun entry hentry => hlower ▸ hplain entry hentry
    have hcapital := (leadsBack_of_returns htool (h tool htool)).plain_of_plain hplain
    have hcapital' := (leadsBack_of_returns hother (h other hother)).plain_of_plain hplain'
    have hname : tool.name = other.name := by
      rw [← h tool htool, ← h other hother, to_of_plain hplain, to_of_plain hplain']
      exact from_congr htool hcapital.symm (hcapital.trans (hlower.trans hcapital'.symm))
    rw [hname]

theorem returns_of_leadsBack (hnodup : (tools.map fun tool => cs.lower tool.name).Nodup)
    (htool : tool ∈ tools) (h : LeadsBack cs tools tool.name) :
    fromClaudeCodeToolName cs (toClaudeCodeToolName cs tool.name) tools = tool.name := by
  have honly : ∀ name, cs.lower tool.name = cs.lower name →
      fromClaudeCodeToolName cs name tools = tool.name := by
    intro name hname
    obtain ⟨first, hmem, hfirst, heq⟩ := from_of_lower htool hname
    rw [heq, List.inj_on_of_nodup_map hnodup hmem htool (hfirst.trans hname.symm)]
  cases h with
  | plain hplain hcapital =>
    rw [to_of_plain hplain]
    exact honly _ hcapital.symm
  | cased entry hentry hname hcase =>
    rw [to_of_pattern hentry hname]
    exact honly _ (hname.symm.trans hcase.symm)
  | aliased entry hfirst hname hfree =>
    have hmem := List.mem_of_find?_eq_some hfirst
    rw [to_of_pattern hmem (by rw [hname, lower_pattern hmem]), from_of_free hfree, hfirst, hname]
    rfl

/-- **Main result.** The rename is undone, and no two names are sent as one, exactly when the names
are distinct in lower case and each leads back to itself. -/
theorem survives_iff (cs : Casing) (tools : List ToolDefinition) :
    Survives cs tools ↔ (tools.map fun tool => cs.lower tool.name).Nodup ∧
      ∀ tool ∈ tools, LeadsBack cs tools tool.name := by
  have hrenamed : (renamed cs tools).map ToolDefinition.name =
      tools.map fun tool => toClaudeCodeToolName cs tool.name := by
    rw [renamed, List.map_map]
    rfl
  constructor
  · rintro ⟨hback, hnodup⟩
    refine ⟨?_, fun tool htool => leadsBack_of_returns htool (hback tool htool)⟩
    rw [hrenamed] at hnodup
    refine (List.nodup_map_iff_inj_on hnodup.of_map).mpr fun tool htool other hother hlower => ?_
    exact List.inj_on_of_nodup_map hnodup htool hother (to_eq_of_lower htool hother hback hlower)
  · rintro ⟨hnodup, hleads⟩
    have hback : ∀ tool ∈ tools, fromClaudeCodeToolName cs (toClaudeCodeToolName cs tool.name)
        tools = tool.name := fun tool htool =>
      returns_of_leadsBack hnodup htool (hleads tool htool)
    refine ⟨hback, ?_⟩
    rw [hrenamed]
    refine (List.nodup_map_iff_inj_on hnodup.of_map).mpr fun tool htool other hother heq => ?_
    have hname : tool.name = other.name := by rw [← hback tool htool, heq, hback other hother]
    exact List.inj_on_of_nodup_map hnodup htool hother (congrArg cs.lower hname)

/-! ## The names of the file tools -/

def asciiCasing : Casing where
  lower t := t.map Char.toLower
  upper c := [c.toUpper]
  lower_ascii _ := rfl

/-- `read_file` is sent as `Read`, which comes back as `read`. -/
theorem read_file_lost : ¬ ∀ (cs : Casing) (tools : List ToolDefinition),
    (tools.map ToolDefinition.name).Nodup → Survives cs tools := by
  intro h
  have hback := (h asciiCasing [⟨"read_file".toList, [], .null⟩] (by decide)).1 _ List.mem_cons_self
  revert hback
  decide

end Nanna.Llm
