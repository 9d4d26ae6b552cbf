import Nanna.Llm.Truncated

/-!
# Valid JSON is left alone

`valid_json_kept`: what is read from a valid JSON text is what healing reads from it and what is read
from the repaired text. The repairs change nothing in it (`repairCommon_of_accepts`): a document has a
run, so no quote, comma or word of it is one that the repairs look for, and at its end nothing is
open. Healing reads the text without its surrounding whitespace, which in a valid text is whitespace
of JSON (`blanks_around`).

Parsing is `parse`: it accepts the texts of `Scan.accepts` and does not see the blanks around a value.
-/

namespace Nanna.Llm

open Nanna.Lib Nanna.Lib.Text Nanna.Lib.Scan

variable {limit : Nat} {scalar : Text → Bool} {s pre post : Text}

/-- The repairs change no document. -/
theorem repairCommon_of_accepts (h : accepts limit scalar s = true) : repairCommon s = s := by
  obtain ⟨σ, hrun, hstack, hended⟩ := accepts_iff.mp h
  have hout := (quiet_of_ended hended).1
  rw [repairCommon_run hrun, hout, hstack]
  exact List.append_nil s

/-- A text without its surrounding whitespace, and the whitespace. -/
theorem exists_blanks_trim (s : Text) : ∃ pre post, s = pre ++ trim s ++ post ∧
    (∀ c ∈ pre, isWhitespace c = true) ∧ ∀ c ∈ post, isWhitespace c = true := by
  refine ⟨s.takeWhile isWhitespace, (s.dropWhile isWhitespace).rtakeWhile isWhitespace, ?_,
    fun c hc => List.mem_takeWhile_imp hc, fun c hc => List.mem_rtakeWhile_imp hc⟩
  rw [List.append_assoc, trim, List.rdropWhile_append_rtakeWhile, List.takeWhile_append_dropWhile]

/-- The whitespace around a document is whitespace of JSON. -/
theorem blanks_around (h : accepts limit scalar (pre ++ s ++ post) = true)
    (hpre : ∀ c ∈ pre, isWhitespace c = true) (hpost : ∀ c ∈ post, isWhitespace c = true) :
    ∀ c ∈ pre ++ post, isBlank c = true := by
  obtain ⟨τ, hrun, hstack, hended⟩ := accepts_iff.mp h
  rw [run_append, run_append] at hrun
  obtain ⟨σ, hdoc, hend⟩ := Option.bind_eq_some_iff.mp hrun
  obtain ⟨ρ, hstart, -⟩ := Option.bind_eq_some_iff.mp hdoc
  have hout : σ.inString = false := by
    rcases run_whitespace hpost hend with rfl | ⟨hσ, -⟩
    · exact (quiet_of_ended hended).1
    · exact (quiet_of_ended hσ).1
  intro c hc
  rcases List.mem_append.mp hc with hc | hc
  · exact isBlank_of_run hpre hstart rfl c hc
  · exact isBlank_of_run hpost hend hout c hc

variable {parse : Text → Option Json} {value : Json}

/-- **Main result.** Healing and repairing keep the value of a valid text. -/
theorem valid_json_kept (hparse : ∀ t, (parse t).isSome = accepts limit scalar t)
    (hblanks : ∀ pre t post, (∀ c ∈ pre ++ post, isBlank c = true) → parse (pre ++ t ++ post) = parse t)
    (hvalid : parse s = some value) :
    healJson parse s = some value ∧ parse (repairCommon s) = some value := by
  have haccepts : accepts limit scalar s = true := by
    rw [← hparse, hvalid]
    rfl
  refine ⟨?_, by rw [repairCommon_of_accepts haccepts, hvalid]⟩
  obtain ⟨pre, post, hsplit, hpre, hpost⟩ := exists_blanks_trim s
  have hblank : ∀ c ∈ pre ++ post, isBlank c = true := by
    rw [hsplit] at haccepts
    exact blanks_around haccepts hpre hpost
  have htrim : parse (trim s) = some value := by
    rw [← hblanks pre (trim s) post hblank, ← hsplit, hvalid]
  refine healJson_of_parse (fun hnil => ?_) htrim
  have hnone : (parse []).isSome = false := hparse []
  rw [hnil] at htrim
  rw [htrim] at hnone
  cases hnone

theorem parseAs_blanks (value : Json) (pre t post : Text) (h : ∀ c ∈ pre ++ post, isBlank c = true) :
    parseAs value (pre ++ t ++ post) = parseAs value t := by
  rw [parseAs, parseAs, accepts_blanks (fun c hc => h c (List.mem_append_left _ hc))
    fun c hc => h c (List.mem_append_right _ hc)]

/-- Quotes, brackets, commas and comments in a string. -/
theorem valid_json_kept_string :
    healJson (parseAs (.obj [("a", .str "'x', ] // \x7d /* b: \" ")]))
        " \x7b\"a\": \"'x', ] // \x7d /* b: \\\" \"\x7d\n".toList =
      some (.obj [("a", .str "'x', ] // \x7d /* b: \" ")]) ∧
    parseAs (.obj [("a", .str "'x', ] // \x7d /* b: \" ")])
        (repairCommon " \x7b\"a\": \"'x', ] // \x7d /* b: \\\" \"\x7d\n".toList) =
      some (.obj [("a", .str "'x', ] // \x7d /* b: \" ")]) :=
  valid_json_kept (parseAs_isSome _) (parseAs_blanks _) (by
    rw [parseAs, if_pos (by decide)])

end Nanna.Llm
