import Mathlib.Data.List.Basic
import Mathlib.Logic.Function.Basic

/-!
# Blocks in a stream

A stream starts blocks under indices, adds to them and stops them. It is disciplined when an index is
started at most once, what is added names a block that is open under the same kind, only an open
block is stopped, and none is open where the stream ends (`Disciplined`). A monitor that knows the
phase of every index accepts exactly the disciplined streams (`disciplined_iff`), and reads them
part by part (`accepts_append`).

A translator turns inputs into parts of a stream (`emits`). When each of its steps keeps a relation
with the monitor's phases, and is accepted exactly under a condition, the whole stream is accepted
exactly when every step meets the condition (`accepts_emits`).
-/

namespace Nanna.Lib

variable {ι κ : Type*}

inductive BlockAct (ι κ : Type*) where
  | start (i : ι) (kind : κ)
  | delta (i : ι) (kind : κ)
  | stop (i : ι)
  | terminal
  | other

/-- What an act requires of the acts before it. -/
def BlockAct.Meets (pre : List (BlockAct ι κ)) : BlockAct ι κ → Prop
  | start i _ => ∀ kind, start i kind ∉ pre
  | delta i kind => start i kind ∈ pre ∧ stop i ∉ pre
  | stop i => (∃ kind, start i kind ∈ pre) ∧ stop i ∉ pre
  | terminal => ∀ i kind, start i kind ∈ pre → stop i ∈ pre
  | other => True

/-- Every act meets what it requires. -/
def Disciplined (acts : List (BlockAct ι κ)) : Prop :=
  ∀ pre act post, acts = pre ++ act :: post → act.Meets pre

namespace Disciplined

variable {acts acts' : List (BlockAct ι κ)} {act : BlockAct ι κ} {i : ι} {kind kind' : κ}

theorem left (h : Disciplined (acts ++ acts')) : Disciplined acts := fun pre act post heq =>
  h pre act (post ++ acts') (by rw [heq, List.append_assoc, List.cons_append])

theorem last (h : Disciplined (acts ++ act :: acts')) : act.Meets acts := h acts act acts' rfl

theorem start_of_delta (h : Disciplined acts) (hdelta : .delta i kind ∈ acts) :
    .start i kind ∈ acts := by
  obtain ⟨pre, post, rfl⟩ := List.append_of_mem hdelta
  exact List.mem_append_left _ h.last.1

theorem start_of_stop (h : Disciplined acts) (hstop : .stop i ∈ acts) :
    ∃ kind, .start i kind ∈ acts := by
  obtain ⟨pre, post, rfl⟩ := List.append_of_mem hstop
  obtain ⟨⟨kind, hstart⟩, -⟩ := h.last
  exact ⟨kind, List.mem_append_left _ hstart⟩

/-- An index is started under one kind. -/
theorem kind_eq (h : Disciplined acts) (hstart : .start i kind ∈ acts)
    (hstart' : .start i kind' ∈ acts) : kind = kind' := by
  obtain ⟨pre, post, rfl⟩ := List.append_of_mem hstart
  rcases List.mem_append.mp hstart' with hpre | hpost
  · exact absurd hpre (h.last kind')
  · rcases List.mem_cons.mp hpost with heq | hpost
    · cases heq
      rfl
    · obtain ⟨mid, post, rfl⟩ := List.append_of_mem hpost
      have h' : Disciplined ((pre ++ .start i kind :: mid) ++ .start i kind' :: post) := by
        rwa [List.append_assoc, List.cons_append]
      exact absurd (List.mem_append_right _ List.mem_cons_self) (h'.last kind)

end Disciplined

/-! ## The monitor -/

inductive BlockPhase (κ : Type*) where
  | fresh
  | opened (kind : κ)
  | closed
  deriving DecidableEq

/-- The phase of every index. -/
abbrev Blocks (ι κ : Type*) := ι → BlockPhase κ

namespace Blocks

def Allows (blocks : Blocks ι κ) : BlockAct ι κ → Prop
  | .start i _ => blocks i = .fresh
  | .delta i kind => blocks i = .opened kind
  | .stop i => ∃ kind, blocks i = .opened kind
  | .terminal => ∀ i kind, blocks i ≠ .opened kind
  | .other => True

variable [DecidableEq ι]

def next (blocks : Blocks ι κ) : BlockAct ι κ → Blocks ι κ
  | .start i kind => Function.update blocks i (.opened kind)
  | .stop i => Function.update blocks i .closed
  | _ => blocks

def after (blocks : Blocks ι κ) (acts : List (BlockAct ι κ)) : Blocks ι κ := acts.foldl next blocks

def Accepts : Blocks ι κ → List (BlockAct ι κ) → Prop
  | _, [] => True
  | blocks, act :: acts => blocks.Allows act ∧ Accepts (blocks.next act) acts

variable {blocks : Blocks ι κ} {act : BlockAct ι κ} {acts acts' : List (BlockAct ι κ)} {i : ι}
  {kind : κ}

@[simp] theorem accepts_nil : blocks.Accepts [] ↔ True := Iff.rfl

@[simp] theorem accepts_cons :
    blocks.Accepts (act :: acts) ↔ blocks.Allows act ∧ (blocks.next act).Accepts acts := Iff.rfl

@[simp] theorem next_delta : blocks.next (.delta i kind) = blocks := rfl

@[simp] theorem next_other : blocks.next .other = blocks := rfl

@[simp] theorem after_nil : blocks.after [] = blocks := rfl

@[simp] theorem after_cons : blocks.after (act :: acts) = (blocks.next act).after acts := rfl

theorem after_append : blocks.after (acts ++ acts') = (blocks.after acts).after acts' :=
  List.foldl_append

theorem accepts_append :
    blocks.Accepts (acts ++ acts') ↔ blocks.Accepts acts ∧ (blocks.after acts).Accepts acts' := by
  induction acts generalizing blocks with
  | nil => simp
  | cons act acts ih => rw [List.cons_append, accepts_cons, accepts_cons, after_cons, ih, and_assoc]

/-! ## The monitor and the discipline -/

/-- The phases say what the acts before did. -/
def Knows (blocks : Blocks ι κ) (pre : List (BlockAct ι κ)) : Prop := ∀ i,
  (blocks i = .fresh ↔ ∀ kind, .start i kind ∉ pre) ∧
  (∀ kind, blocks i = .opened kind ↔ .start i kind ∈ pre ∧ .stop i ∉ pre) ∧
  (blocks i = .fresh → .stop i ∉ pre)

omit [DecidableEq ι] in
theorem knows_nil : Knows (fun _ : ι => (.fresh : BlockPhase κ)) [] := fun i => by
  simp

omit [DecidableEq ι] in
theorem Knows.allows_iff (h : blocks.Knows acts) : blocks.Allows act ↔ act.Meets acts := by
  cases act with
  | start i kind => exact (h i).1
  | delta i kind => exact (h i).2.1 kind
  | stop i =>
    refine ⟨fun ⟨kind, hkind⟩ => ?_, fun ⟨⟨kind, hstart⟩, hstop⟩ => ?_⟩
    · obtain ⟨hstart, hstop⟩ := ((h i).2.1 kind).mp hkind
      exact ⟨⟨kind, hstart⟩, hstop⟩
    · exact ⟨kind, ((h i).2.1 kind).mpr ⟨hstart, hstop⟩⟩
  | terminal =>
    refine forall_congr' fun i => forall_congr' fun kind => ?_
    rw [Ne, (h i).2.1 kind, not_and, not_not]
  | other => exact Iff.rfl

theorem Knows.start (h : blocks.Knows acts) (hfresh : blocks i = .fresh) :
    (blocks.next (.start i kind)).Knows (acts ++ [.start i kind]) := by
  intro j
  simp only [next, List.mem_append, List.mem_singleton, reduceCtorEq, or_false,
    BlockAct.start.injEq, not_or]
  by_cases hj : j = i
  · subst hj
    have hnew := (h j).1.mp hfresh
    have hstop := (h j).2.2 hfresh
    rw [Function.update_self]
    simp only [reduceCtorEq, true_and, false_iff, not_forall, not_and, not_not,
      BlockPhase.opened.injEq, false_imp_iff, and_true]
    exact ⟨⟨kind, fun _ => rfl⟩, fun kind' =>
      ⟨fun heq => ⟨.inr heq.symm, hstop⟩, fun ⟨hmem, _⟩ => (hmem.resolve_left (hnew kind')).symm⟩⟩
  · rw [Function.update_of_ne hj]
    simpa only [hj, false_and, not_false_eq_true, and_true, or_false] using h j

theorem Knows.stop (h : blocks.Knows acts) (hopen : blocks i = .opened kind) :
    (blocks.next (.stop i)).Knows (acts ++ [.stop i]) := by
  intro j
  simp only [next, List.mem_append, List.mem_singleton, reduceCtorEq, or_false,
    BlockAct.stop.injEq, not_or]
  by_cases hj : j = i
  · subst hj
    have hstart := (((h j).2.1 kind).mp hopen).1
    rw [Function.update_self]
    simp only [reduceCtorEq, not_true_eq_false, and_false, false_iff, not_forall, not_not,
      implies_true, and_true, false_imp_iff]
    exact ⟨kind, hstart⟩
  · rw [Function.update_of_ne hj]
    simpa only [hj, not_false_eq_true, and_true] using h j

theorem Knows.next (h : blocks.Knows acts) (hallows : blocks.Allows act) :
    (blocks.next act).Knows (acts ++ [act]) := by
  cases act with
  | start i kind => exact h.start hallows
  | stop i =>
    obtain ⟨kind, hopen⟩ := hallows
    exact h.stop hopen
  | delta | terminal | other =>
    intro i
    simpa only [Blocks.next, List.mem_append, List.mem_singleton, reduceCtorEq, or_false] using h i

theorem Knows.accepts_iff (h : blocks.Knows acts) : blocks.Accepts acts' ↔
    ∀ mid act post, acts' = mid ++ act :: post → act.Meets (acts ++ mid) := by
  induction acts' generalizing blocks acts with
  | nil => simp
  | cons first acts' ih =>
    rw [accepts_cons, h.allows_iff]
    constructor
    · rintro ⟨hfirst, hrest⟩ mid act post heq
      cases mid with
      | nil =>
        cases heq
        rwa [List.append_nil]
      | cons second mid =>
        cases heq
        have hmeets := (ih (h.next (h.allows_iff.mpr hfirst))).mp hrest mid act post rfl
        rwa [List.append_assoc, List.singleton_append] at hmeets
    · intro hall
      have hfirst : first.Meets acts := by
        have hmeets := hall [] first acts' rfl
        rwa [List.append_nil] at hmeets
      refine ⟨hfirst, (ih (h.next (h.allows_iff.mpr hfirst))).mpr fun mid act post heq => ?_⟩
      rw [List.append_assoc, List.singleton_append]
      exact hall (first :: mid) act post (by rw [heq, List.cons_append])

/-- Open blocks can be stopped one after another. -/
theorem accepts_stops {indices : List ι} (hnodup : indices.Nodup)
    (hopen : ∀ i ∈ indices, ∃ kind, blocks i = .opened kind) :
    blocks.Accepts (indices.map .stop) ∧ ∀ j, blocks.after (indices.map .stop) j =
      if j ∈ indices then .closed else blocks j := by
  induction indices generalizing blocks with
  | nil => exact ⟨trivial, fun j => rfl⟩
  | cons i indices ih =>
    obtain ⟨hi, hnodup⟩ := List.nodup_cons.mp hnodup
    have hrest (j : ι) (hj : j ∈ indices) : ∃ kind, blocks.next (.stop i) j = .opened kind := by
      rw [Blocks.next, Function.update_of_ne (ne_of_mem_of_not_mem hj hi)]
      exact hopen j (List.mem_cons_of_mem i hj)
    obtain ⟨haccepts, hafter⟩ := ih hnodup hrest
    refine ⟨⟨hopen i List.mem_cons_self, haccepts⟩, fun j => ?_⟩
    rw [List.map_cons, after_cons, hafter, Blocks.next]
    by_cases hj : j = i
    · subst hj
      simp
    · simp [hj]

end Blocks

/-- The monitor accepts exactly the disciplined streams. -/
theorem disciplined_iff [DecidableEq ι] {acts : List (BlockAct ι κ)} :
    Disciplined acts ↔ Blocks.Accepts (fun _ => .fresh) acts := Blocks.knows_nil.accepts_iff.symm

/-! ## One block at a time -/

/-- Every index below is closed, and the next one is open where there is a current kind. -/
def running (next : Nat) (current : Option κ) : Blocks Nat κ := fun i =>
  if i < next then .closed else if i = next then current.elim .fresh .opened else .fresh

variable {next : Nat} {kind : κ} {current : Option κ}

@[simp] theorem running_self : running next current next = current.elim .fresh .opened := by
  rw [running, if_neg (Nat.lt_irrefl next), if_pos rfl]

theorem running_zero : running 0 (none : Option κ) = fun _ => .fresh := by
  funext i
  rw [running, if_neg (Nat.not_lt_zero i)]
  split
  · rfl
  · rfl

@[simp] theorem next_start : (running next none).next (.start next kind) = running next (some kind) := by
  funext i
  rw [Blocks.next]
  by_cases hi : i = next
  · rw [hi, Function.update_self, running_self]
    rfl
  · rw [Function.update_of_ne hi, running, running, if_neg hi, if_neg hi]

@[simp] theorem next_stop : (running next (some kind)).next (.stop next) = running (next + 1) none := by
  funext i
  rw [Blocks.next]
  by_cases hi : i = next
  · rw [hi, Function.update_self, running, if_pos (Nat.lt_succ_self next)]
  · rw [Function.update_of_ne hi, running, running, if_neg hi]
    by_cases hlt : i < next
    · rw [if_pos hlt, if_pos (Nat.lt_succ_of_lt hlt)]
    · rw [if_neg hlt, if_neg (by omega)]
      split
      · rfl
      · rfl

theorem running_terminal (i : Nat) (kind : κ) : running next none i ≠ .opened kind := by
  rw [running]
  split
  · exact fun h => nomatch h
  · split
    · exact fun h => nomatch h
    · exact fun h => nomatch h

/-! ## Translators -/

variable {σ α β γ ε : Type*}

/-- Run a machine over its inputs; what the steps put out, in order. -/
def emits (step : σ → α → σ × List ε) : σ → List α → σ × List ε
  | s, [] => (s, [])
  | s, a :: as => ((emits step (step s a).1 as).1, (step s a).2 ++ (emits step (step s a).1 as).2)

variable {step : σ → α → σ × List ε} {s : σ}

theorem emits_append {as bs : List α} : emits step s (as ++ bs) =
    ((emits step (emits step s as).1 bs).1,
      (emits step s as).2 ++ (emits step (emits step s as).1 bs).2) := by
  induction as generalizing s with
  | nil => rfl
  | cons a as ih => rw [List.cons_append, emits, ih, emits, List.append_assoc]

/-- A step that is a run over smaller inputs. -/
theorem emits_flatMap {parts : β → List α} {step' : σ → β → σ × List ε}
    (h : ∀ s b, step' s b = emits step s (parts b)) (bs : List β) :
    emits step' s bs = emits step s (bs.flatMap parts) := by
  induction bs generalizing s with
  | nil => rfl
  | cons b bs ih => rw [emits, List.flatMap_cons, emits_append, ih, h]

/-- Every input meets a condition on what the inputs before it are remembered as. -/
def Along (ok : γ → α → Prop) (note : γ → α → γ) : γ → List α → Prop
  | _, [] => True
  | g, a :: as => ok g a ∧ Along ok note (note g a) as

variable [DecidableEq ι] {R : σ → γ → Prop} {phases : γ → Blocks ι κ} {act : ε → BlockAct ι κ}
  {ok : γ → α → Prop} {note : γ → α → γ} {g : γ} {as : List α}

/-- What one step does, under a relation of its state with what is remembered, a run does. -/
theorem accepts_emits
    (hstep : ∀ s g a, R s g → ((phases g).Accepts ((step s a).2.map act) ↔ ok g a) ∧
      (ok g a → R (step s a).1 (note g a) ∧
        (phases g).after ((step s a).2.map act) = phases (note g a)))
    (h : R s g) : ((phases g).Accepts ((emits step s as).2.map act) ↔ Along ok note g as) ∧
      (Along ok note g as → R (emits step s as).1 (as.foldl note g) ∧
        (phases g).after ((emits step s as).2.map act) = phases (as.foldl note g)) := by
  induction as generalizing s g with
  | nil => exact ⟨Iff.rfl, fun _ => ⟨h, rfl⟩⟩
  | cons a as ih =>
    obtain ⟨hiff, hnext⟩ := hstep s g a h
    rw [emits, List.map_append, Blocks.accepts_append, Blocks.after_append, List.foldl_cons, Along,
      hiff]
    refine ⟨and_congr_right fun hok => ?_, fun ⟨hok, hrest⟩ => ?_⟩
    · obtain ⟨hR, hafter⟩ := hnext hok
      rw [hafter]
      exact (ih hR).1
    · obtain ⟨hR, hafter⟩ := hnext hok
      rw [hafter]
      exact (ih hR).2 hrest

end Nanna.Lib
