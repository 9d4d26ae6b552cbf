import Mathlib.Algebra.Order.BigOperators.Group.Finset
import Nanna.Loop.Breakers

/-!
# Cycles without information

`cycles_end`: from some point of a run on, let every execution of a shape succeed with the same content.
Then a shape is executed in at most three batches more than there are batches in which another shape
changes the world, and if only one of the shapes is side-effecting, at most six batches for each shape
execute anything.

Two side-effecting shapes re-arm each other without end, and the calls of one batch are decided together,
so a single batch can execute any number of equal calls (`cycles_unbounded`).

The bound for one shape is an account (`Account`): after three executions a further one needs a change
of the world since the last (`disturbed_of_executed`), and that change is in a batch of its own
interval.
-/

namespace Nanna.Loop

open Nanna.Lib

variable {env : RepeatEnv} {history calls : List ToolCall} {call : ToolCall} {key : Text}
  {batches late : List (List ToolCall)} {run : RepeatRun} {p q : ToolCall → Bool}

/-! ## What is counted -/

/-- The batches with such an execution. -/
def rounds (p : ToolCall → Bool) (batches : List (List ToolCall)) : Nat :=
  batches.countP fun calls => calls.any p

/-- What the batches after a point executed. -/
def executedSince (env : RepeatEnv) (before after : List (List ToolCall)) : List (List ToolCall) :=
  (runBatches env {} (before ++ after)).executed.drop before.length

/-- Every execution of a shape succeeds with the same content. -/
def Repeating (env : RepeatEnv) (calls : List ToolCall) : Prop :=
  ∃ content : Text → Text, ∀ call ∈ calls, Succeeded (content (call.shape env)) call

def hasShape (env : RepeatEnv) (key : Text) (call : ToolCall) : Bool := call.shape env = key

/-- A successful side-effecting call of another shape. -/
def changesBeside (env : RepeatEnv) (key : Text) (call : ToolCall) : Bool :=
  call.changesWorld && call.shape env ≠ key

/-! ## Rounds -/

theorem rounds_concat : rounds p (batches ++ [calls]) = rounds p batches + if calls.any p then 1 else 0 := by
  rw [rounds, List.countP_append, List.countP_singleton]
  rfl

theorem rounds_concat_of_mem (hcall : call ∈ calls) (hp : p call = true) :
    rounds p (batches ++ [calls]) = rounds p batches + 1 := by
  rw [rounds_concat, if_pos (List.any_eq_true.mpr ⟨call, hcall, hp⟩)]

theorem rounds_le_concat : rounds p batches ≤ rounds p (batches ++ [calls]) := by
  rw [rounds_concat]
  exact Nat.le_add_right _ _

theorem rounds_mono (h : ∀ call ∈ batches.flatten, p call = true → q call = true) :
    rounds p batches ≤ rounds q batches := by
  refine List.countP_mono_left fun calls hcalls hany => ?_
  obtain ⟨call, hcall, hp⟩ := List.any_eq_true.mp hany
  exact List.any_eq_true.mpr ⟨call, hcall, h call (List.mem_flatten.mpr ⟨calls, hcalls, hcall⟩) hp⟩

theorem rounds_eq_zero (h : ∀ call ∈ batches.flatten, p call = false) : rounds p batches = 0 := by
  refine List.countP_eq_zero.mpr fun calls hcalls hany => ?_
  obtain ⟨call, hcall, hp⟩ := List.any_eq_true.mp hany
  rw [h call (List.mem_flatten.mpr ⟨calls, hcalls, hcall⟩)] at hp
  exact Bool.false_ne_true hp

/-- A round of a shape has an execution of it. -/
theorem rounds_le_length : rounds (hasShape env key) batches ≤
    (shapeCalls env key batches.flatten).length := by
  induction batches using List.reverseRecOn with
  | nil => exact le_rfl
  | append_singleton batches calls ih =>
    rw [rounds_concat, List.flatten_append, List.flatten_singleton, shapeCalls_append,
      List.length_append]
    refine Nat.add_le_add ih ?_
    split
    · rename_i hany
      obtain ⟨call, hcall, hshape⟩ := List.any_eq_true.mp hany
      exact List.length_pos_of_mem (List.mem_filter.mpr ⟨hcall, hshape⟩)
    · exact Nat.zero_le _

/-- Every round is a round of some shape. -/
theorem rounds_le_sum (shapes : Finset Text) (h : ∀ call ∈ batches.flatten, call.shape env ∈ shapes) :
    rounds (fun _ => true) batches ≤ ∑ key ∈ shapes, rounds (hasShape env key) batches := by
  induction batches using List.reverseRecOn with
  | nil => exact Nat.zero_le _
  | append_singleton batches calls ih =>
    rw [List.flatten_append, List.flatten_singleton] at h
    have hle := ih fun call hcall => h call (List.mem_append_left _ hcall)
    simp only [rounds_concat, Finset.sum_add_distrib]
    refine Nat.add_le_add hle ?_
    split
    · rename_i hany
      obtain ⟨call, hcall, -⟩ := List.any_eq_true.mp hany
      have hhere : calls.any (hasShape env (call.shape env)) = true :=
        List.any_eq_true.mpr ⟨call, hcall, decide_eq_true rfl⟩
      calc 1 = if calls.any (hasShape env (call.shape env)) then 1 else 0 := (if_pos hhere).symm
        _ ≤ _ := Finset.single_le_sum (f := fun key => if calls.any (hasShape env key) then 1 else 0)
            (fun _ _ => Nat.zero_le _) (h call (List.mem_append_right _ hcall))
    · exact Nat.zero_le _

/-! ## The account of a shape -/

/-- The world has changed since the last execution of the shape. -/
def Disturbed (env : RepeatEnv) (key : Text) (history : List ToolCall) : Prop :=
  ∃ pre last post, LastOf env key history pre last post ∧ ¬ Quiet post

/-- The rounds of a shape are paid by three and by the rounds in which others change the world, and a
change that the shape has not seen is not spent yet. -/
structure Account (env : RepeatEnv) (key : Text) (history : List ToolCall) (late : List (List ToolCall)) :
    Prop where
  spent : rounds (hasShape env key) late ≤ 3 + rounds (changesBeside env key) late
  saved : Disturbed env key (history ++ late.flatten) →
    rounds (hasShape env key) late + 1 ≤ 3 + rounds (changesBeside env key) late

/-- What a batch disturbs after the last execution of the shape is a change beside it. -/
theorem changesBeside_of_not_quiet {post : List ToolCall} (hpost : ∀ call ∈ post, call.shape env ≠ key)
    (h : ¬ Quiet post) : ∃ call ∈ post, changesBeside env key call = true := by
  rw [Quiet] at h
  push Not at h
  obtain ⟨call, hcall, hchanges⟩ := h
  refine ⟨call, hcall, ?_⟩
  rw [changesBeside, Bool.and_eq_true]
  exact ⟨Bool.eq_true_of_not_eq_false hchanges, decide_eq_true (hpost call hcall)⟩

/-- A tail of executions with one content is a streak. -/
theorem streak_of_repeating (hrepeating : Repeating env calls)
    (hthree : 3 ≤ (shapeCalls env key calls).length) :
    Streak env (shapeCalls env key (history ++ calls)) := by
  obtain ⟨content, hcontent⟩ := hrepeating
  refine .inr ⟨env.resultContentHash (content key),
    (shapeCalls env key calls).drop ((shapeCalls env key calls).length - 3), ?_, ?_, fun call hcall => ?_⟩
  · rw [shapeCalls_append]
    exact (List.drop_suffix _ _).trans (List.suffix_append _ _)
  · rw [List.length_drop]
    omega
  · obtain ⟨hmem, hshape⟩ := List.mem_filter.mp (List.mem_of_mem_drop hcall)
    obtain ⟨hsuccess, heq⟩ := hcontent call hmem
    rw [of_decide_eq_true hshape] at heq
    exact ⟨hsuccess, congrArg _ heq⟩

/-- After three executions, a further one needs a change of the world. -/
theorem disturbed_of_executed (hrepeating : Repeating env calls)
    (hthree : 3 ≤ (shapeCalls env key calls).length) (hshape : call.shape env = key)
    (hexecuted : breakerNotice env (noted env (history ++ calls)) call = none) :
    Disturbed env key (history ++ calls) := by
  have hsome : ∃ c ∈ history ++ calls, c.shape env = key := by
    obtain ⟨c, hc⟩ := List.exists_mem_of_length_pos (lt_of_lt_of_le (by omega) hthree)
    obtain ⟨hmem, hkey⟩ := List.mem_filter.mp hc
    exact ⟨c, List.mem_append_right _ hmem, of_decide_eq_true hkey⟩
  obtain ⟨pre, last, post, hlast⟩ : ∃ pre last post, LastOf env key (history ++ calls) pre last post :=
    exists_lastAt hsome
  refine ⟨pre, last, post, hlast, fun hquiet => ?_⟩
  have hpaused : call.paused = none := by
    rw [breakerNotice] at hexecuted
    split at hexecuted
    · cases hexecuted
    · assumption
  obtain ⟨entry, refusal, -, hnotice, -⟩ :=
    notice_of_streak hlast hquiet hpaused hshape (streak_of_repeating hrepeating hthree)
  rw [hexecuted] at hnotice
  cases hnotice

/-- One batch. -/
theorem Account.concat (h : Account env key history late) (hrepeating : Repeating env late.flatten)
    (hcalls : ∀ call ∈ calls, breakerNotice env (noted env (history ++ late.flatten)) call = none) :
    Account env key history (late ++ [calls]) := by
  have hbeside : rounds (changesBeside env key) late ≤ rounds (changesBeside env key) (late ++ [calls]) :=
    rounds_le_concat
  have hflatten : history ++ (late ++ [calls]).flatten = (history ++ late.flatten) ++ calls := by
    rw [List.flatten_append, List.flatten_singleton, List.append_assoc]
  by_cases hhere : ∃ call ∈ calls, call.shape env = key
  · -- the shape is executed
    obtain ⟨call, hcall, hshape⟩ := hhere
    have hspent : rounds (hasShape env key) late + 1 ≤ 3 + rounds (changesBeside env key) late := by
      by_cases hthree : 3 ≤ (shapeCalls env key late.flatten).length
      · exact h.saved (disturbed_of_executed hrepeating hthree hshape (hcalls call hcall))
      · have hle : rounds (hasShape env key) late ≤ (shapeCalls env key late.flatten).length :=
          rounds_le_length
        omega
    have hround : rounds (hasShape env key) (late ++ [calls]) = rounds (hasShape env key) late + 1 :=
      rounds_concat_of_mem hcall (decide_eq_true hshape)
    refine ⟨by omega, fun hdisturbed => ?_⟩
    obtain ⟨pre, last, post, hlast, hnot⟩ := hdisturbed
    obtain ⟨pre', last', post', hlast'⟩ : ∃ pre' last' post', LastOf env key calls pre' last' post' :=
      exists_lastAt ⟨call, hcall, hshape⟩
    rw [hflatten] at hlast
    obtain ⟨-, -, rfl⟩ := hlast.unique hlast'.append_left
    obtain ⟨c, hc, hchanges⟩ := changesBeside_of_not_quiet hlast'.after hnot
    have hmem : c ∈ calls := by
      rw [hlast'.eq]
      exact List.mem_append_right _ (List.mem_cons_of_mem _ hc)
    have hnew : rounds (changesBeside env key) (late ++ [calls]) = rounds (changesBeside env key) late + 1 :=
      rounds_concat_of_mem hmem hchanges
    omega
  · -- only others are
    have hnone (call : ToolCall) (hcall : call ∈ calls) : call.shape env ≠ key :=
      fun hshape => hhere ⟨call, hcall, hshape⟩
    have hround : rounds (hasShape env key) (late ++ [calls]) = rounds (hasShape env key) late := by
      rw [rounds_concat, if_neg, Nat.add_zero]
      intro hany
      obtain ⟨call, hcall, hshape⟩ := List.any_eq_true.mp hany
      exact hnone call hcall (of_decide_eq_true hshape)
    have hspent := h.spent
    refine ⟨by omega, fun hdisturbed => ?_⟩
    obtain ⟨pre, last, post, hlast, hnot⟩ := hdisturbed
    rw [hflatten] at hlast
    by_cases hquiet : Quiet calls
    · have hin : last ∈ history ++ late.flatten :=
        (List.mem_append.mp hlast.mem).resolve_right fun hcall => hnone last hcall hlast.here
      obtain ⟨pre', last', post', hlast'⟩ : ∃ pre' last' post',
          LastOf env key (history ++ late.flatten) pre' last' post' :=
        exists_lastAt ⟨last, hin, hlast.here⟩
      obtain ⟨rfl, rfl, rfl⟩ := hlast.unique (hlast'.append hnone)
      have hsaved := h.saved ⟨pre, last, post', hlast', fun hpost => hnot (hpost.append hquiet)⟩
      omega
    · obtain ⟨c, hc, hchanges⟩ := changesBeside_of_not_quiet hnone hquiet
      have hnew : rounds (changesBeside env key) (late ++ [calls]) =
          rounds (changesBeside env key) late + 1 := rounds_concat_of_mem hc hchanges
      omega

/-! ## Runs -/

variable {before after : List (List ToolCall)}

theorem length_executed : (runBatches env {} batches).executed.length = batches.length := by
  induction batches using List.reverseRecOn with
  | nil => rfl
  | append_singleton batches batch ih =>
    rw [executed_concat, List.length_append, List.length_append, ih]
    rfl

theorem executedSince_concat (batch : List ToolCall) : executedSince env before (after ++ [batch]) =
    executedSince env before after ++
      [executedCalls env (runBatches env {} (before ++ after)).ledger batch] := by
  rw [executedSince, ← List.append_assoc, executed_concat, List.drop_append_of_le_length]
  · rfl
  · rw [length_executed, List.length_append]
    exact Nat.le_add_right _ _

theorem executed_eq (before after : List (List ToolCall)) : (runBatches env {} (before ++ after)).executed =
    (runBatches env {} before).executed ++ executedSince env before after := by
  induction after using List.reverseRecOn with
  | nil =>
    rw [executedSince, List.append_nil, ← @length_executed env before, List.drop_length, List.append_nil]
  | append_singleton after batch ih =>
    rw [executedSince_concat, ← List.append_assoc, executed_concat, ih, List.append_assoc]

theorem called_of_executed (hcall : call ∈ (executedSince env before after).flatten) :
    call ∈ after.flatten := by
  induction after using List.reverseRecOn with
  | nil =>
    rw [executedSince, List.append_nil, ← @length_executed env before, List.drop_length] at hcall
    exact hcall
  | append_singleton after batch ih =>
    rw [executedSince_concat, List.flatten_append, List.flatten_singleton] at hcall
    rw [List.flatten_append, List.flatten_singleton]
    exact List.mem_append.mpr ((List.mem_append.mp hcall).imp ih List.mem_of_mem_filter)

theorem account_run (hrepeating : Repeating env (executedSince env before after).flatten) :
    Account env key (runBatches env {} before).executed.flatten (executedSince env before after) := by
  induction after using List.reverseRecOn with
  | nil =>
    have hnil : executedSince env before [] = [] := by
      rw [executedSince, List.append_nil, ← @length_executed env before, List.drop_length]
    rw [hnil]
    exact ⟨Nat.zero_le _, fun _ => Nat.le_add_left _ _⟩
  | append_singleton after batch ih =>
    rw [executedSince_concat] at hrepeating ⊢
    obtain ⟨content, hcontent⟩ := hrepeating
    have hearlier : Repeating env (executedSince env before after).flatten := by
      refine ⟨content, fun call hcall => hcontent call ?_⟩
      rw [List.flatten_append]
      exact List.mem_append_left _ hcall
    refine (ih hearlier).concat hearlier fun call hcall => ?_
    rw [← List.flatten_append, ← executed_eq, ← ledger_run]
    exact Option.isNone_iff_eq_none.mp (List.mem_filter.mp hcall).2

/-- A shape alone among side-effecting ones is executed in three rounds. -/
theorem rounds_beside_le (hrepeating : Repeating env (executedSince env before after).flatten)
    (hone : ∀ call ∈ after.flatten, ∀ call' ∈ after.flatten, isWorkEvidenceTool call.name = true →
      isWorkEvidenceTool call'.name = true → call.shape env = call'.shape env) :
    rounds (changesBeside env key) (executedSince env before after) ≤ 3 := by
  have hworks {call : ToolCall} (hchanges : call.changesWorld = true) :
      isWorkEvidenceTool call.name = true := by
    rw [ToolCall.changesWorld, Bool.and_eq_true] at hchanges
    exact hchanges.2
  by_cases hsome : ∃ call ∈ (executedSince env before after).flatten, call.changesWorld = true
  · obtain ⟨writer, hwriter, hchanges⟩ := hsome
    have hshape (call : ToolCall) (hcall : call ∈ (executedSince env before after).flatten)
        (h : call.changesWorld = true) : call.shape env = writer.shape env :=
      hone call (called_of_executed hcall) writer (called_of_executed hwriter) (hworks h) (hworks hchanges)
    have hzero : rounds (changesBeside env (writer.shape env)) (executedSince env before after) = 0 := by
      refine rounds_eq_zero fun call hcall => Bool.eq_false_of_not_eq_true fun hbeside => ?_
      rw [changesBeside, Bool.and_eq_true] at hbeside
      exact of_decide_eq_true hbeside.2 (hshape call hcall hbeside.1)
    calc rounds (changesBeside env key) (executedSince env before after)
        ≤ rounds (hasShape env (writer.shape env)) (executedSince env before after) :=
          rounds_mono fun call hcall hbeside => by
            rw [changesBeside, Bool.and_eq_true] at hbeside
            exact decide_eq_true (hshape call hcall hbeside.1)
      _ ≤ 3 + rounds (changesBeside env (writer.shape env)) (executedSince env before after) :=
          (account_run hrepeating).spent
      _ = 3 := by rw [hzero]
  · have hzero : rounds (changesBeside env key) (executedSince env before after) = 0 := by
      refine rounds_eq_zero fun call hcall => Bool.eq_false_of_not_eq_true fun hbeside => ?_
      rw [changesBeside, Bool.and_eq_true] at hbeside
      exact hsome ⟨call, hcall, hbeside.1⟩
    omega

/-- **Main result.** From some point on let only these shapes be called, and let every execution of a
shape succeed with the same content. A shape is then executed in at most three batches more than there are
batches in which another shape changes the world; and if at most one of the shapes is side-effecting, at
most six batches for each shape execute anything. -/
theorem cycles_end (env : RepeatEnv) (shapes : Finset Text) (before after : List (List ToolCall))
    (hshapes : ∀ call ∈ after.flatten, call.shape env ∈ shapes)
    (hrepeating : Repeating env (executedSince env before after).flatten) :
    (∀ key, rounds (hasShape env key) (executedSince env before after) ≤
      3 + rounds (changesBeside env key) (executedSince env before after)) ∧
    ((∀ call ∈ after.flatten, ∀ call' ∈ after.flatten, isWorkEvidenceTool call.name = true →
        isWorkEvidenceTool call'.name = true → call.shape env = call'.shape env) →
      rounds (fun _ => true) (executedSince env before after) ≤ 6 * shapes.card) := by
  refine ⟨fun key => (account_run hrepeating).spent, fun hone => ?_⟩
  calc rounds (fun _ => true) (executedSince env before after)
      ≤ ∑ key ∈ shapes, rounds (hasShape env key) (executedSince env before after) :=
        rounds_le_sum shapes fun call hcall => hshapes call (called_of_executed hcall)
    _ ≤ ∑ _key ∈ shapes, 6 := Finset.sum_le_sum fun key _ => by
        have hspent := (@account_run env key before after hrepeating).spent
        have hbeside : rounds (changesBeside env key) (executedSince env before after) ≤ 3 :=
          rounds_beside_le hrepeating hone
        omega
    _ = 6 * shapes.card := by rw [Finset.sum_const_nat fun _ _ => rfl, Nat.mul_comm]

/-- Reads around a write. -/
theorem cycles_end_sample :
    rounds (fun _ => true) (executedSince sampleRepeats [] [[sampleCall "read_file" "draft"],
      [sampleCall "write_file" "written"], [sampleCall "read_file" "draft"]]) ≤
      6 * ({(sampleCall "read_file" "draft").shape sampleRepeats,
        (sampleCall "write_file" "written").shape sampleRepeats} : Finset Text).card := by
  have hcases (call : ToolCall) (hcall : call ∈ [[sampleCall "read_file" "draft"],
      [sampleCall "write_file" "written"], [sampleCall "read_file" "draft"]].flatten) :
      call = sampleCall "read_file" "draft" ∨ call = sampleCall "write_file" "written" := by
    simp only [List.flatten_cons, List.flatten_nil, List.cons_append, List.nil_append,
      List.mem_cons, List.not_mem_nil, or_false] at hcall
    tauto
  refine (cycles_end sampleRepeats _ [] _ (fun call hcall => ?_)
    ⟨fun shape => if shape = (sampleCall "read_file" "draft").shape sampleRepeats then "draft".toList
      else "written".toList, fun call hcall => ?_⟩).2 fun call hcall call' hcall' hwork hwork' => ?_
  · rcases hcases call hcall with rfl | rfl
    · exact Finset.mem_insert_self _ _
    · exact Finset.mem_insert_of_mem (Finset.mem_singleton_self _)
  · rcases hcases call (called_of_executed hcall) with rfl | rfl
    · exact ⟨rfl, (if_pos rfl).symm⟩
    · exact ⟨rfl, (if_neg (by decide)).symm⟩
  · have hread : isWorkEvidenceTool (sampleCall "read_file" "draft").name = false := by decide
    rcases hcases call hcall with rfl | rfl
    · exact absurd (hread.symm.trans hwork) Bool.false_ne_true
    · rcases hcases call' hcall' with rfl | rfl
      · exact absurd (hread.symm.trans hwork') Bool.false_ne_true
      · rfl

/-! ## Cycles without end -/

/-- Executions bounded by the number of shapes, for the runs that go on in this way. -/
def Bounded (ok : List (List ToolCall) → Prop) : Prop :=
  ∀ size, ∃ bound, ∀ (env : RepeatEnv) (shapes : Finset Text) (before after : List (List ToolCall)),
    ok after → shapes.card = size → (∀ call ∈ after.flatten, call.shape env ∈ shapes) →
      Repeating env (executedSince env before after).flatten →
        (executedSince env before after).flatten.length ≤ bound

/-- After a change by another shape a call is executed. -/
theorem executed_of_changed {last : ToolCall} (hpaused : call.paused = none)
    (hchanges : last.changesWorld = true) (hshape : last.shape env ≠ call.shape env) :
    breakerNotice env (noted env (history ++ [last])) call = none := by
  cases hnotice : breakerNotice env (noted env (history ++ [last])) call with
  | none => rfl
  | some refusal =>
    rcases breakerNotice_cases hnotice with ⟨_, hsome, -⟩ | ⟨entry, hentry, hepoch, -⟩
    · cases hpaused.symm.trans hsome
    · obtain ⟨pre, last', post, hlast, -⟩ := inner_noted hentry
      have hquiet := (epoch_current_iff hlast hentry).mp hepoch
      have heq := hlast.eq
      rcases List.eq_nil_or_concat post with rfl | ⟨init, final, rfl⟩
      · obtain ⟨-, hlasts⟩ := List.append_inj' heq rfl
        obtain rfl : last = last' := List.head_eq_of_cons_eq hlasts
        exact absurd hlast.here hshape
      · rw [List.concat_eq_append, ← List.cons_append, ← List.append_assoc] at heq
        obtain ⟨-, hlasts⟩ := List.append_inj' heq rfl
        obtain rfl : last = final := List.head_eq_of_cons_eq hlasts
        exact absurd ((hquiet last (by simp)).symm.trans hchanges) Bool.false_ne_true

/-- An `exec` and a `bash` in turn. -/
def alternation (n : Nat) : List (List ToolCall) :=
  (List.replicate n [[sampleCall "exec" "ok"], [sampleCall "bash" "ok"]]).flatten

theorem alternation_succ (n : Nat) : alternation (n + 1) =
    (alternation n ++ [[sampleCall "exec" "ok"]]) ++ [[sampleCall "bash" "ok"]] := by
  rw [alternation, List.replicate_succ', List.flatten_append, List.flatten_singleton, ← alternation,
    List.append_assoc]
  rfl

/-- Every call of the alternation is executed. -/
theorem executed_alternation (n : Nat) :
    (runBatches sampleRepeats {} (alternation n)).executed = alternation n := by
  have hshapes : (sampleCall "exec" "ok").shape sampleRepeats ≠
      (sampleCall "bash" "ok").shape sampleRepeats := by decide
  have hexec : (sampleCall "exec" "ok").changesWorld = true := by decide
  have hbash : (sampleCall "bash" "ok").changesWorld = true := by decide
  induction n with
  | zero => rfl
  | succ n ih =>
    have hfirst : executedCalls sampleRepeats (runBatches sampleRepeats {} (alternation n)).ledger
        [sampleCall "exec" "ok"] = [sampleCall "exec" "ok"] := by
      refine List.filter_eq_self.mpr fun call hcall => ?_
      rw [List.mem_singleton.mp hcall, ledger_run, ih, Option.isNone_iff_eq_none]
      cases n with
      | zero => rfl
      | succ n =>
        rw [alternation_succ, List.flatten_append, List.flatten_singleton]
        exact executed_of_changed rfl hbash hshapes.symm
    have hsecond : executedCalls sampleRepeats
        (runBatches sampleRepeats {} (alternation n ++ [[sampleCall "exec" "ok"]])).ledger
        [sampleCall "bash" "ok"] = [sampleCall "bash" "ok"] := by
      refine List.filter_eq_self.mpr fun call hcall => ?_
      rw [List.mem_singleton.mp hcall, ledger_run, executed_concat, hfirst, Option.isNone_iff_eq_none,
        List.flatten_append, List.flatten_singleton]
      exact executed_of_changed rfl hexec hshapes
    rw [alternation_succ, executed_concat, hsecond, executed_concat, hfirst, ih]

theorem mem_alternation {n : Nat} (hcall : call ∈ (alternation n).flatten) :
    call = sampleCall "exec" "ok" ∨ call = sampleCall "bash" "ok" := by
  induction n with
  | zero => exact absurd hcall List.not_mem_nil
  | succ n ih =>
    rw [alternation_succ, List.flatten_append, List.flatten_append, List.mem_append, List.mem_append] at hcall
    rcases hcall with (hcall | hcall) | hcall
    · exact ih hcall
    · exact .inl (List.mem_singleton.mp hcall)
    · exact .inr (List.mem_singleton.mp hcall)

theorem length_alternation (n : Nat) : (alternation n).flatten.length = 2 * n := by
  induction n with
  | zero => rfl
  | succ n ih =>
    rw [alternation_succ, List.flatten_append, List.flatten_append, List.length_append,
      List.length_append, ih]
    rfl

theorem executedSince_start (after : List (List ToolCall)) :
    executedSince env [] after = (runBatches env {} after).executed := rfl

/-- The number of executions of a cycle without information has no bound: not where two side-effecting
shapes alternate, one call a batch, and not where one batch calls a reading tool any number of times. -/
theorem cycles_unbounded : ¬ Bounded (fun _ => True) ∧
    ¬ Bounded (fun after => ∀ batch ∈ after, batch.length = 1) ∧
    ¬ Bounded (fun after => ∀ call ∈ after.flatten, isWorkEvidenceTool call.name = false) := by
  have hmono {ok : List (List ToolCall) → Prop} (h : Bounded (fun _ => True)) : Bounded ok := by
    intro size
    obtain ⟨bound, hbound⟩ := h size
    exact ⟨bound, fun env shapes before after _ => hbound env shapes before after trivial⟩
  have halternate : ¬ Bounded (fun after => ∀ batch ∈ after, batch.length = 1) := by
    intro h
    obtain ⟨bound, hbound⟩ := h 2
    have hle := hbound sampleRepeats {(sampleCall "exec" "ok").shape sampleRepeats,
      (sampleCall "bash" "ok").shape sampleRepeats} [] (alternation (bound + 1)) ?_ ?_ ?_ ?_
    · rw [executedSince_start, executed_alternation, length_alternation] at hle
      omega
    · intro batch hbatch
      obtain ⟨pair, hpair, hbatch⟩ := List.mem_flatten.mp hbatch
      rw [List.eq_of_mem_replicate hpair] at hbatch
      rcases List.mem_pair.mp hbatch with rfl | rfl
      · rfl
      · rfl
    · decide
    · intro call hcall
      rcases mem_alternation hcall with rfl | rfl
      · exact Finset.mem_insert_self _ _
      · exact Finset.mem_insert_of_mem (Finset.mem_singleton_self _)
    · refine ⟨fun _ => "ok".toList, fun call hcall => ?_⟩
      rcases mem_alternation (called_of_executed hcall) with rfl | rfl
      · exact ⟨rfl, rfl⟩
      · exact ⟨rfl, rfl⟩
  refine ⟨fun h => halternate (hmono h), halternate, fun h => ?_⟩
  obtain ⟨bound, hbound⟩ := h 1
  have hcases (call : ToolCall)
      (hcall : call ∈ [List.replicate (bound + 1) (sampleCall "read_file" "draft")].flatten) :
      call = sampleCall "read_file" "draft" := by
    rw [List.flatten_singleton] at hcall
    exact List.eq_of_mem_replicate hcall
  have hexecuted : executedSince sampleRepeats []
      [List.replicate (bound + 1) (sampleCall "read_file" "draft")] =
      [List.replicate (bound + 1) (sampleCall "read_file" "draft")] := by
    refine congrArg (fun calls => [calls]) (List.filter_eq_self.mpr fun call hcall => ?_)
    rw [List.eq_of_mem_replicate hcall]
    rfl
  have hle := hbound sampleRepeats {(sampleCall "read_file" "draft").shape sampleRepeats} []
    [List.replicate (bound + 1) (sampleCall "read_file" "draft")] ?_ (Finset.card_singleton _) ?_ ?_
  · rw [hexecuted, List.flatten_singleton, List.length_replicate] at hle
    omega
  · intro call hcall
    rw [hcases call hcall]
    decide
  · intro call hcall
    rw [hcases call hcall]
    exact Finset.mem_singleton_self _
  · refine ⟨fun _ => "draft".toList, fun call hcall => ?_⟩
    rw [hcases call (called_of_executed hcall)]
    exact ⟨rfl, rfl⟩

end Nanna.Loop
