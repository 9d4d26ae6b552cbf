import Nanna.Lib.Except

/-!
# Computations cut at their await points

A computation that gives up control between its sections is a phase and a partial function from a state and a
phase to the next of both; `resume` runs one section, and a section that fails leaves the state and returns its
error. `Returns` says what a computation does when nothing comes between its sections, and its rules follow the
sequential program: `Returns.bind` for a section that reads, `Returns.write` for one that writes.
-/

namespace Nanna.Lib

variable {σ φ ε ρ α : Type}

section Resume

variable (act : σ → φ → Except ε (σ × φ)) (ret : Except ε ρ → φ)

def resume (s : σ) (phase : φ) : σ × φ :=
  match act s phase with
  | .ok next => next
  | .error e => (s, ret (.error e))

def resumes : Nat → σ × φ → σ × φ
  | 0, at_ => at_
  | n + 1, at_ => resumes n (resume act ret at_.1 at_.2)

/-- With nothing in between, the sections leave and return this. -/
def Returns (s : σ) (phase : φ) : Except ε (σ × ρ) → Prop
  | .ok (s', x) => ∃ n, resumes act ret n (s, phase) = (s', ret (.ok x))
  | .error e => ∃ n, resumes act ret n (s, phase) = (s, ret (.error e))

end Resume

variable {act : σ → φ → Except ε (σ × φ)} {ret : Except ε ρ → φ} {s s' : σ} {phase phase' : φ}
  {r : Except ε (σ × ρ)}

theorem resume_ok {next : σ × φ} (h : act s phase = .ok next) : resume act ret s phase = next := by
  rw [resume, h]

theorem resume_error {e : ε} (h : act s phase = .error e) :
    resume act ret s phase = (s, ret (.error e)) := by
  rw [resume, h]

theorem Returns.done (x : ρ) : Returns act ret s (ret (.ok x)) (.ok (s, x)) := ⟨0, rfl⟩

theorem Returns.fail {e : ε} (h : act s phase = .error e) : Returns act ret s phase (.error e) :=
  ⟨1, resume_error h⟩

/-- A section that only reads. -/
theorem Returns.next (h : act s phase = .ok (s, phase')) (hrest : Returns act ret s phase' r) :
    Returns act ret s phase r := by
  rcases r with e | ⟨s', x⟩ <;> obtain ⟨n, hn⟩ := hrest <;> refine ⟨n + 1, ?_⟩ <;>
    rw [resumes, resume_ok h] <;> exact hn

/-- A section that writes; what comes after it does not fail. -/
theorem Returns.write {t : σ} {x : ρ} (h : act s phase = .ok (s', phase'))
    (hrest : Returns act ret s' phase' (.ok (t, x))) : Returns act ret s phase (.ok (t, x)) := by
  obtain ⟨n, hn⟩ := hrest
  refine ⟨n + 1, ?_⟩
  rw [resumes, resume_ok h]
  exact hn

/-- A section reads a value, and the rest of the program goes on with it. -/
theorem Returns.bind {x : Except ε α} {f : α → Except ε (σ × ρ)} {g : α → Except ε (σ × φ)}
    (hact : act s phase = x >>= g)
    (h : ∀ a, x = .ok a → ∃ phase', g a = .ok (s, phase') ∧ Returns act ret s phase' (f a)) :
    Returns act ret s phase (x >>= f) := by
  cases x with
  | error e => exact .fail hact
  | ok a =>
    obtain ⟨phase', hg, hrest⟩ := h a rfl
    exact .next (hact.trans hg) hrest

end Nanna.Lib
