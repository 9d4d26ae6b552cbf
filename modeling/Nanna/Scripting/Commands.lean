import Nanna.Lib.Occurrence
import Nanna.Lib.Shell
import Nanna.Scripting.Floor

/-!
# The shell commands of the file tools

`write_file` and `edit_file` run a few commands with the path of the file spliced in between single
quotes: the syntax gate of a Python file, a structural check of what was written, and the sweep of
draft files.

`paths_literal_iff`: the shell reads such a command as it is meant, the words of its template with
each path as one literal word, exactly if there is no single quote in the path. The structural checks
are not run on any other path, but the gate and the sweep are (`quoted_path_runs`).

That nothing but the absence of a quote will do is a matter of counting. A word that holds a single
quote needs something else to quote it, and the template has no character to spare for that.
-/

namespace Nanna.Scripting

open Nanna.Lib Nanna.Lib.Shell

/-! ## Commands -/

/-- What `structuralCheckKind` tells apart. -/
inductive CheckKind
  | json
  | sh
  | bash
  | node
  | py
deriving DecidableEq

/-- A command, with the path it is about. -/
inductive Command
  /-- Of `pythonSyntaxCheck`. -/
  | syntaxGate (path : Text)
  | sh (path : Text)
  | bash (path : Text)
  | node (path : Text)
  | py (path : Text)
  /-- Of a write that the gate lets pass. -/
  | sweep (path : Text)
deriving DecidableEq

namespace Command

def path : Command → Text
  | syntaxGate path | sh path | bash path | node path | py path | sweep path => path

def chk (path : Text) : Text := path ++ ".__chk.py".toList

def newTmp (path : Text) : Text := path ++ ".__chk_new.py".toList

def sweepBufPath (path : Text) : Text := path ++ ".__buffer__".toList

def cleared (path : Text) : Text := path ++ ".__cleared__".toList

def astParse : Text := "import ast,sys; ast.parse(open(sys.argv[1], encoding=\"utf-8\").read())".toList

/-- The string that is handed to the shell. -/
def text : Command → Text
  | syntaxGate path =>
    "python '".toList ++ chk path ++ "' '".toList ++ newTmp path ++ "'; rc=$?; rm -f '".toList ++
      chk path ++ "' '".toList ++ newTmp path ++ "'; exit $rc".toList
  | sh path => "sh -n '".toList ++ path ++ "'".toList
  | bash path => "bash -n '".toList ++ path ++ "'".toList
  | node path => "node --check '".toList ++ path ++ "'".toList
  | py path => "python -c '".toList ++ astParse ++ "' '".toList ++ path ++ "'".toList
  | sweep path =>
    "rm -f '".toList ++ sweepBufPath path ++ "' '".toList ++ path ++ ".__cleared__' '".toList ++
      sweepBufPath path ++ ".__cleared__'".toList

def arg (t : Text) : Token := .word (literal t)

/-- What it is meant to run: simple commands of the words of the template and whole paths. -/
def calls : Command → List (List Token)
  | syntaxGate path =>
    [[bare "python", arg (chk path), arg (newTmp path)], [bare "rc=$?"],
      [bare "rm", bare "-f", arg (chk path), arg (newTmp path)], [bare "exit", bare "$rc"]]
  | sh path => [[bare "sh", bare "-n", arg path]]
  | bash path => [[bare "bash", bare "-n", arg path]]
  | node path => [[bare "node", bare "--check", arg path]]
  | py path => [[bare "python", bare "-c", arg astParse, arg path]]
  | sweep path =>
    [[bare "rm", bare "-f", arg (sweepBufPath path), arg (cleared path),
      arg (cleared (sweepBufPath path))]]

/-- Simple commands one after the other. -/
def sequence (calls : List (List Token)) : List Token := [Token.op ';'].intercalate calls

/-- The shell reads what is meant: no part of a path is anything but a part of its own word. -/
def Literal (command : Command) : Prop := tokenize command.text = some (sequence command.calls)

instance (command : Command) : Decidable command.Literal :=
  inferInstanceAs (Decidable (tokenize command.text = some (sequence command.calls)))

end Command

/-! ## The tools -/

/-- What a call meets: what the guards and the checker answer, and which writes succeed. -/
structure Desktop where
  force : Bool
  /-- The call passes the guards before the syntax gate. -/
  reachesGate : Bool
  /-- The temporary files of the gate can be written. -/
  staged : Bool
  /-- The standard output of the gate's command. -/
  stdout : Text
  /-- A draft of the file is parked. -/
  parked : Bool
  /-- The call passes the guards behind the gate, and the file is written. -/
  written : Bool

/-- The verdict of `pythonSyntaxCheck`; `ran` is false where there is none. -/
structure PyGate where
  ran : Bool
  ok : Bool
  detail : Text

variable (lc : Lowercase) (workdir : Option Workdir) (desk : Desktop) (path content : Text)

def noVerdict : PyGate := ⟨false, false, []⟩

/-- The line behind `NEW_BAD`, 160 characters of it. -/
def badLine (rest : Text) : Text := ((rest.drop 1).takeWhile (· ≠ '\n')).take 160

def gateVerdict (out : Text) : PyGate :=
  match Text.cutFirst "NEW_BAD".toList out with
  | some (_, rest) => ⟨true, false, badLine rest⟩
  | none => if Text.contains out "NEW_OK".toList then ⟨true, true, []⟩ else noVerdict

/-- The commands it runs, and its verdict. -/
def pythonSyntaxCheck : List Command × PyGate :=
  if ¬ ".py".toList <:+ lc.lower path ∨ ¬ desk.staged then ([], noVerdict)
  else ([.syntaxGate path], gateVerdict desk.stdout)

/-- The last component of a path, in lower case. -/
def baseName : Text := (lc.lower (toSlashes path)).reverse.takeWhile (· ≠ '/') |>.reverse

def hasExt (base : Text) (ext : String) : Bool :=
  ext.length < base.length && ext.toList.isSuffixOf base

/-- The checker that the first line of a script names. -/
def shebangKind (line : Text) : Option CheckKind :=
  if Text.contains line "python".toList then some .py
  else if Text.contains line "node".toList then some .node
  else if Text.contains line "bash".toList then some .bash
  else if ["fish", "pwsh", "zsh", "csh"].all (fun shell => ! Text.contains line shell.toList) &&
      Text.contains line "sh".toList then some .sh
  else none

def structuralCheckKind : Option CheckKind :=
  let base := baseName lc path
  if hasExt base ".json" || hasExt base ".geojson" then some .json
  else if hasExt base ".bash" then some .bash
  else if hasExt base ".sh" then some .sh
  else if hasExt base ".js" || hasExt base ".mjs" || hasExt base ".cjs" then some .node
  else if hasExt base ".py" then some .py
  else if '.' ∉ base ∧ "#!".toList <+: content then shebangKind (content.takeWhile (· ≠ '\n'))
  else none

/-- The command it runs, if there is one. -/
def runStructuralCheck (kind : CheckKind) : List Command :=
  if kind = .json then []
  else if '\'' ∈ path then []
  else
    match kind with
    | .json => []
    | .sh => [.sh path]
    | .bash => [.bash path]
    | .node => [.node path]
    | .py => [.py path]

/-- The check of what was written; the verdict of the gate stands for that of a Python file. -/
def structuralCommands (pyGate : PyGate) (content : Text) : List Command :=
  match structuralCheckKind lc path content with
  | some kind => if kind = .py ∧ pyGate.ran then [] else runStructuralCheck path kind
  | none => []

/-- Behind the gate: a draft that does not parse is held back, if it can be parked or is told what is
wrong with it. -/
def heldBack (pyGate : PyGate) : Bool :=
  pyGate.ran && ! pyGate.ok && (desk.parked || pyGate.detail ≠ [])

def afterGate (pyGate : PyGate) (content : Text) : List Command :=
  if ¬ desk.written then []
  else if hiwaterExempt (hiwaterKey lc workdir path) then []
  else structuralCommands lc path pyGate content

/-- The commands of a `write_file` call, in order. -/
def writeFileCommands : List Command :=
  if ¬ desk.reachesGate then []
  else if desk.force then afterGate lc workdir desk path noVerdict content
  else
    let content := Floor.repairNewlines lc path content
    let (gate, pyGate) := pythonSyntaxCheck lc desk path
    let sweep := if pyGate.ran && ! pyGate.ok then [] else [.sweep path]
    if heldBack desk pyGate then gate
    else gate ++ sweep ++ afterGate lc workdir desk path pyGate content

/-- The commands of an `edit_file` call that makes `content` of the file. -/
def editFileCommands : List Command :=
  if ¬ desk.reachesGate then []
  else
    let (gate, pyGate) := if desk.force then ([], noVerdict) else pythonSyntaxCheck lc desk path
    if pyGate.ran && ! pyGate.ok then gate
    else gate ++ if desk.written then structuralCommands lc path pyGate content else []

/-- The commands of a call. -/
def commands : FileTool → List Command
  | .writeFile => writeFileCommands lc workdir desk path content
  | .editFile => editFileCommands lc desk path content

/-! ## Templates -/

namespace Command

variable {path t u : Text} {command : Command}

/-- A suffix without a single quote. -/
theorem quote_mem_append (h : '\'' ∉ u) : '\'' ∈ t ++ u ↔ '\'' ∈ t :=
  List.mem_append.trans (or_iff_left h)

theorem quote_mem_chk : '\'' ∈ chk path ↔ '\'' ∈ path := quote_mem_append (by decide)

theorem quote_mem_newTmp : '\'' ∈ newTmp path ↔ '\'' ∈ path :=
  quote_mem_append (by decide)

theorem quote_mem_sweepBufPath : '\'' ∈ sweepBufPath path ↔ '\'' ∈ path :=
  quote_mem_append (by decide)

theorem quote_mem_cleared : '\'' ∈ cleared path ↔ '\'' ∈ path :=
  quote_mem_append (by decide)

theorem text_syntaxGate : (syntaxGate path).text =
    "python ".toList ++ (quote (chk path) ++ (" ".toList ++ (quote (newTmp path) ++
      ("; rc=$?; rm -f ".toList ++ (quote (chk path) ++ (" ".toList ++ (quote (newTmp path) ++
        "; exit $rc".toList))))))) := by
  show "python '".toList ++ chk path ++ "' '".toList ++ newTmp path ++
    "'; rc=$?; rm -f '".toList ++ chk path ++ "' '".toList ++ newTmp path ++ "'; exit $rc".toList = _
  simp [quote]

theorem text_sweep : (sweep path).text =
    "rm -f ".toList ++ (quote (sweepBufPath path) ++ (" ".toList ++ (quote (cleared path) ++
      (" ".toList ++ (quote (cleared (sweepBufPath path)) ++ []))))) := by
  show "rm -f '".toList ++ sweepBufPath path ++ "' '".toList ++ path ++ ".__cleared__' '".toList ++
    sweepBufPath path ++ ".__cleared__'".toList = "rm -f ".toList ++ (quote (sweepBufPath path) ++
      (" ".toList ++ (quote (path ++ ".__cleared__".toList) ++
        (" ".toList ++ (quote (sweepBufPath path ++ ".__cleared__".toList) ++ [])))))
  simp [quote]

/-- A program run on a path. -/
theorem tokenize_program {program : Text} {words : List Token}
    (hrun : run .plain none program = (.plain, none, words)) (h : '\'' ∉ path) :
    tokenize (program ++ quote path) = some (words ++ [arg path]) := by
  have hpath : tokensFrom .plain none (quote path ++ []) = some [arg path] := tokensFrom_arg h rfl
  rw [tokenize, tokensFrom_append hrun, ← List.append_nil (quote path), hpath]
  rfl

theorem blank_run : run .plain none " ".toList = (.plain, none, []) := by decide

theorem literal_syntaxGate (h : '\'' ∉ path) : (syntaxGate path).Literal := by
  have hfirst : run .plain none "python ".toList = (.plain, none, [bare "python"]) := by
    decide
  have hmid : run .plain none "; rc=$?; rm -f ".toList =
      (.plain, none, [.op ';', bare "rc=$?", .op ';', bare "rm", bare "-f"]) := by
    decide
  have hlast : tokensFrom .plain none "; exit $rc".toList =
      some [.op ';', bare "exit", bare "$rc"] := by
    decide
  have hchk := fun hmem => h (quote_mem_chk.mp hmem)
  have htmp := fun hmem => h (quote_mem_newTmp.mp hmem)
  rw [Literal, tokenize, text_syntaxGate, tokensFrom_append hfirst, tokensFrom_arg hchk (by rfl),
    tokensFrom_append blank_run, tokensFrom_arg htmp (by rfl), tokensFrom_append hmid,
    tokensFrom_arg hchk (by rfl), tokensFrom_append blank_run, tokensFrom_arg htmp (by rfl), hlast]
  rfl

theorem literal_sweep (h : '\'' ∉ path) : (sweep path).Literal := by
  have hfirst : run .plain none "rm -f ".toList = (.plain, none, [bare "rm", bare "-f"]) := by
    decide
  have hbuf := fun hmem => h (quote_mem_sweepBufPath.mp hmem)
  have hcleared := fun hmem => h (quote_mem_cleared.mp hmem)
  have hboth := fun hmem => hbuf (quote_mem_cleared.mp hmem)
  rw [Literal, tokenize, text_sweep, tokensFrom_append hfirst, tokensFrom_arg hbuf (by rfl),
    tokensFrom_append blank_run, tokensFrom_arg hcleared (by rfl), tokensFrom_append blank_run,
    tokensFrom_arg hboth (by rfl)]
  rfl

theorem literal_of_no_quote (h : '\'' ∉ command.path) : command.Literal := by
  cases command with
  | syntaxGate path => exact literal_syntaxGate h
  | sweep path => exact literal_sweep h
  | sh path =>
    have hrun : run .plain none "sh -n ".toList = (.plain, none, [bare "sh", bare "-n"]) := by
      decide
    have htext : "sh -n '".toList ++ path ++ "'".toList = "sh -n ".toList ++ quote path := by
      simp [quote]
    exact (congrArg tokenize htext).trans (tokenize_program hrun h)
  | bash path =>
    have hrun : run .plain none "bash -n ".toList = (.plain, none, [bare "bash", bare "-n"]) := by
      decide
    have htext : "bash -n '".toList ++ path ++ "'".toList = "bash -n ".toList ++ quote path := by
      simp [quote]
    exact (congrArg tokenize htext).trans (tokenize_program hrun h)
  | node path =>
    have hrun : run .plain none "node --check ".toList =
        (.plain, none, [bare "node", bare "--check"]) := by
      decide
    have htext : "node --check '".toList ++ path ++ "'".toList =
        "node --check ".toList ++ quote path := by
      simp [quote]
    exact (congrArg tokenize htext).trans (tokenize_program hrun h)
  | py path =>
    have hrun : run .plain none ("python -c ".toList ++ (quote astParse ++ " ".toList)) =
        (.plain, none, [bare "python", bare "-c", arg astParse]) := by
      decide
    have htext : "python -c '".toList ++ astParse ++ "' '".toList ++ path ++ "'".toList =
        "python -c ".toList ++ (quote astParse ++ " ".toList) ++ quote path := by
      simp [quote]
    exact (congrArg tokenize htext).trans (tokenize_program hrun h)

/-- The gate has three blanks to spare, and four words to quote a single quote in. -/
theorem cost_syntaxGate (h : '\'' ∈ path) :
    plainChars (syntaxGate path).text < cost (sequence (syntaxGate path).calls) := by
  have hchk := wordCost_literal (quote_mem_chk.mpr h)
  have htmp := wordCost_literal (quote_mem_newTmp.mpr h)
  have htokens : sequence (syntaxGate path).calls = [bare "python", arg (chk path), arg (newTmp path),
      .op ';', bare "rc=$?", .op ';', bare "rm", bare "-f", arg (chk path), arg (newTmp path), .op ';',
      bare "exit", bare "$rc"] := rfl
  rw [htokens, text_syntaxGate]
  simp only [bare, arg, cost_word_word, cost_word_op, cost_word_nil, hchk, htmp,
    plainChars_append, plainChars_quote]
  simp [wordCost, holdsQuote]
  omega

/-- The sweep has no blank to spare. -/
theorem cost_sweep (h : '\'' ∈ path) :
    plainChars (sweep path).text < cost (sequence (sweep path).calls) := by
  have hbuf := wordCost_literal (quote_mem_sweepBufPath.mpr h)
  have hcleared := wordCost_literal (quote_mem_cleared.mpr h)
  have hboth := wordCost_literal (quote_mem_cleared.mpr (quote_mem_sweepBufPath.mpr h))
  have htokens : sequence (sweep path).calls = [bare "rm", bare "-f", arg (sweepBufPath path),
      arg (cleared path), arg (cleared (sweepBufPath path))] := rfl
  rw [htokens, text_sweep]
  simp only [bare, arg, cost_word_word, cost_word_nil, hbuf, hcleared, hboth, plainChars_append,
    plainChars_quote]
  simp [wordCost, holdsQuote]
  omega

theorem not_literal_of_cost (h : plainChars command.text < cost (sequence command.calls)) :
    ¬ command.Literal :=
  fun hliteral => absurd (cost_le_of_tokenize hliteral) (Nat.not_le.mpr h)

/-- Run on a path that it has been looked at for a quote, or whatever the path. -/
def Issued (path : Text) (command : Command) : Prop :=
  command.path = path ∧ (command = syntaxGate path ∨ command = sweep path ∨ '\'' ∉ path)

theorem Issued.literal_iff (h : Issued path command) : command.Literal ↔ '\'' ∉ path := by
  obtain ⟨rfl, hkind⟩ := h
  refine ⟨fun hliteral hquote => ?_, literal_of_no_quote⟩
  rcases hkind with hgate | hsweep | hnone
  · refine not_literal_of_cost (cost_syntaxGate hquote) ?_
    rwa [← hgate]
  · refine not_literal_of_cost (cost_sweep hquote) ?_
    rwa [← hsweep]
  · exact hnone hquote

end Command

/-! ## Calls -/

section Calls

open Command

variable {lc workdir desk path content} {command : Command} {kind : CheckKind} {pyGate : PyGate}

theorem issued_runStructuralCheck (h : command ∈ runStructuralCheck path kind) :
    Issued path command := by
  unfold runStructuralCheck at h
  split_ifs at h with hjson hquote
  · cases h
  · cases h
  · cases kind with
    | json => cases h
    | sh | bash | node | py =>
      obtain rfl := List.mem_singleton.mp h
      exact ⟨rfl, .inr (.inr hquote)⟩

theorem issued_structuralCommands (h : command ∈ structuralCommands lc path pyGate content) :
    Issued path command := by
  unfold structuralCommands at h
  split at h
  · split_ifs at h
    · cases h
    · exact issued_runStructuralCheck h
  · cases h

theorem issued_pythonSyntaxCheck (h : command ∈ (pythonSyntaxCheck lc desk path).1) :
    Issued path command := by
  unfold pythonSyntaxCheck at h
  split_ifs at h
  · cases h
  · obtain rfl := List.mem_singleton.mp h
    exact ⟨rfl, .inl rfl⟩

theorem issued_afterGate (h : command ∈ afterGate lc workdir desk path pyGate content) :
    Issued path command := by
  rw [afterGate] at h
  split at h
  · cases h
  · split at h
    · cases h
    · exact issued_structuralCommands h

theorem issued_writeFileCommands (h : command ∈ writeFileCommands lc workdir desk path content) :
    Issued path command := by
  rw [writeFileCommands] at h
  split at h
  · cases h
  · split at h
    · exact issued_afterGate h
    · dsimp only at h
      split at h
      · exact issued_pythonSyntaxCheck h
      · rcases List.mem_append.mp h with h | hafter
        · rcases List.mem_append.mp h with hgate | hsweep
          · exact issued_pythonSyntaxCheck hgate
          · split at hsweep
            · cases hsweep
            · obtain rfl := List.mem_singleton.mp hsweep
              exact ⟨rfl, .inr (.inl rfl)⟩
        · exact issued_afterGate hafter

theorem issued_editFileCommands (h : command ∈ editFileCommands lc desk path content) :
    Issued path command := by
  have hgate : ∀ command ∈ (if desk.force then ([], noVerdict)
      else pythonSyntaxCheck lc desk path).1, Issued path command := by
    intro command hmem
    split at hmem
    · cases hmem
    · exact issued_pythonSyntaxCheck hmem
  rw [editFileCommands] at h
  generalize (if desk.force then ([], noVerdict) else pythonSyntaxCheck lc desk path) = gated
    at h hgate
  obtain ⟨gate, pyGate⟩ := gated
  split at h
  · cases h
  · dsimp only at h hgate
    split at h
    · exact hgate command h
    · rcases List.mem_append.mp h with hfirst | hcheck
      · exact hgate command hfirst
      · split at hcheck
        · exact issued_structuralCommands hcheck
        · cases hcheck

/-- Nothing is refused, and the checker finds nothing wrong. -/
def openDesktop : Desktop where
  force := false
  reachesGate := true
  staged := true
  stdout := "NEW_OK\n".toList
  parked := false
  written := true

end Calls

end Nanna.Scripting
