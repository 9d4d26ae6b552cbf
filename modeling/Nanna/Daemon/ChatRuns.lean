import Nanna.Lib.Moves
import Nanna.Daemon.Mission

/-!
# The turns of a conversation

`chat_runs_safe`: however messages, turns, the waiters of parked turns and the drains of the queue interleave,
a conversation has at most one turn, every message is at one place, and a parked turn is resumed at most three
times in a row.

The state is that of one conversation: its entries in the registry of runs and its queue, with the calls, turns
and waiters that are on their way, each as far as it has come. Whatever an `await` may let happen in between is
an act of its own.
-/

namespace Nanna.Daemon

open Nanna.Lib

variable {μ : Type}

def pendingMessagesMax : Nat := 64

/-- What a turn leaves behind when its provider is down. -/
structure ParkedTurn (μ : Type) where
  goal : μ
  /-- How often the work has been resumed. -/
  resumes : Nat

structure LiveTurn (μ : Type) where
  goal : μ
  resumes : Nat
  /-- The messages that the interjector has taken and not yet planned. -/
  hand : List μ
  /-- The mission is over, and only the release is left. -/
  concluded : Bool

def LiveTurn.park (turn : LiveTurn μ) : ParkedTurn μ := { goal := turn.goal, resumes := turn.resumes }

structure ChatRuns (μ : Type) where
  pending : List μ
  active : Bool
  parked : Option (ParkedTurn μ)
  resumed : Option Nat
  /-- The calls of `run_chat_turn`: before the claim, turned away, with the claim, and past the park. -/
  arrived : List μ
  refused : List μ
  claimed : List μ
  cleared : List μ
  turns : List (LiveTurn μ)
  /-- The waiters that probe, and the parks that waiters have taken. -/
  watching : Nat
  holding : List (ParkedTurn μ)
  /-- What was sent, what waiters sent again, and what became of it. -/
  sent : List μ
  resent : List μ
  started : List μ
  seeded : List μ
  answered : List μ
  dropped : List μ
  lost : List μ

namespace ChatRuns

def start : ChatRuns μ where
  pending := []
  active := false
  parked := none
  resumed := none
  arrived := []
  refused := []
  claimed := []
  cleared := []
  turns := []
  watching := 0
  holding := []
  sent := []
  resent := []
  started := []
  seeded := []
  answered := []
  dropped := []
  lost := []

inductive Act (μ : Type)
  | send (m : μ)
  | claim (i : Nat)
  | push (i : Nat)
  | supersede (i : Nat)
  | start (i : Nat)
  | drain (i : Nat)
  | seed (i : Nat)
  /-- Seeding fails, and the messages in hand go with it. -/
  | seedFails (i : Nat)
  /-- Stop is pressed while a message is planned. -/
  | stop (i : Nat)
  | park (i : Nat)
  | conclude (i : Nat)
  | release (i : Nat)
  /-- The turn dies, and its watcher releases it. -/
  | crash (i : Nat)
  /-- A question to the user takes what is waiting as the answer. -/
  | answer
  /-- A waiter finds no park, or its probe was answered. -/
  | look
  | wake
  /-- A waiter resumes what it holds. -/
  | again (i : Nat)
  /-- The conversation starts over. -/
  | startOver

/-- `PendingMessages::push`, with what it drops. -/
def pushMessage (queue : List μ) (m : μ) : List μ × List μ :=
  if pendingMessagesMax ≤ queue.length then (queue.tail ++ [m], queue.take 1) else (queue ++ [m], [])

/-- Push them one after the other. -/
def pushMessages (queue : List μ) : List μ → List μ × List μ
  | [] => (queue, [])
  | m :: ms =>
    let first := pushMessage queue m
    let rest := pushMessages first.1 ms
    (rest.1, first.2 ++ rest.2)

def step (s : ChatRuns μ) : Act μ → Option (ChatRuns μ)
  | .send m => some { s with arrived := s.arrived ++ [m], sent := s.sent ++ [m] }
  | .claim i => do
    let (m, arrived) ← pull s.arrived i
    if s.active then some { s with arrived, refused := m :: s.refused }
    else some { s with arrived, active := true, claimed := m :: s.claimed }
  | .push i => do
    let (m, refused) ← pull s.refused i
    let pushed := pushMessage s.pending m
    some { s with refused, pending := pushed.1, dropped := pushed.2 ++ s.dropped }
  | .supersede i => do
    let (m, claimed) ← pull s.claimed i
    some { s with claimed, cleared := m :: s.cleared, parked := none }
  | .start i => do
    let (m, cleared) ← pull s.cleared i
    let turn := { goal := m, resumes := s.resumed.getD 0, hand := [], concluded := false }
    some { s with cleared, turns := turn :: s.turns, resumed := none, started := m :: s.started }
  | .drain i => do
    let (turn, turns) ← pull s.turns i
    if turn.concluded = false ∧ turn.hand.isEmpty then
      some { s with turns := { turn with hand := s.pending } :: turns, pending := [] }
    else none
  | .seed i => do
    let (turn, turns) ← pull s.turns i
    match turn.hand with
    | [] => none
    | m :: hand => some { s with turns := { turn with hand } :: turns, seeded := m :: s.seeded }
  | .seedFails i => do
    let (turn, turns) ← pull s.turns i
    some { s with turns := { turn with hand := [] } :: turns, lost := turn.hand ++ s.lost }
  | .stop i => do
    let (turn, turns) ← pull s.turns i
    let pushed := pushMessages s.pending turn.hand
    some { s with
      turns := { turn with hand := [] } :: turns
      pending := pushed.1
      dropped := pushed.2 ++ s.dropped }
  | .park i => do
    let (turn, turns) ← pull s.turns i
    if turn.concluded = false ∧ turn.hand.isEmpty then
      some { s with
        turns := { turn with concluded := true } :: turns
        parked := some turn.park
        watching := s.watching + 1 }
    else none
  | .conclude i => do
    let (turn, turns) ← pull s.turns i
    if turn.concluded = false ∧ turn.hand.isEmpty then
      some { s with turns := { turn with concluded := true } :: turns }
    else none
  | .release i => do
    let (turn, turns) ← pull s.turns i
    if turn.concluded ∧ turn.hand.isEmpty then some { s with turns, active := false } else none
  | .crash i => do
    let (turn, turns) ← pull s.turns i
    some { s with turns, active := false, lost := turn.hand ++ s.lost }
  | .answer => some { s with pending := [], answered := s.pending ++ s.answered }
  | .look => if 0 < s.watching ∧ s.parked.isNone then some { s with watching := s.watching - 1 } else none
  | .wake =>
    if 0 < s.watching then
      match s.parked with
      | none => some { s with watching := s.watching - 1 }
      | some park =>
        if continuationErrorRounds ≤ park.resumes then some { s with watching := s.watching - 1, parked := none }
        else some { s with watching := s.watching - 1, parked := none, holding := park :: s.holding }
    else none
  | .again i => do
    let (park, holding) ← pull s.holding i
    some { s with
      holding
      resumed := some (park.resumes + 1)
      arrived := s.arrived ++ [park.goal]
      resent := s.resent ++ [park.goal] }
  | .startOver => some { s with parked := none }

/-- Where the messages are. -/
def places (s : ChatRuns μ) : List μ :=
  s.arrived ++ s.refused ++ s.claimed ++ s.cleared ++ s.pending ++ s.turns.flatMap (·.hand) ++ s.started ++
    s.seeded ++ s.answered ++ s.dropped ++ s.lost

/-- The turns that are not over. -/
def going (turns : List (LiveTurn μ)) : Nat := (turns.map fun turn => (!turn.concluded).toNat).sum

/-- The calls, turns, parks and waiters that may still lead to a resume. -/
def chains (s : ChatRuns μ) : Nat :=
  s.arrived.length + s.claimed.length + s.cleared.length + going s.turns + s.parked.toList.length + s.holding.length

theorem going_cons (turn : LiveTurn μ) (turns : List (LiveTurn μ)) :
    going (turn :: turns) = (!turn.concluded).toNat + going turns := rfl

theorem going_perm {turn : LiveTurn μ} {turns rest : List (LiveTurn μ)} (h : turns.Perm (turn :: rest)) :
    going turns = (!turn.concluded).toNat + going rest := (h.map _).sum_nat

theorem concluded_of_going {turns : List (LiveTurn μ)} (h : going turns = 0) :
    ∀ turn ∈ turns, turn.concluded = true := by
  intro turn hmem
  have hzero := List.sum_eq_zero_iff_forall_eq_nat.mp h _ (List.mem_map_of_mem hmem)
  simpa using hzero

theorem length_pushMessage (queue : List μ) (m : μ) (h : queue.length ≤ pendingMessagesMax) :
    (pushMessage queue m).1.length ≤ pendingMessagesMax := by
  unfold pushMessage
  split_ifs with hfull
  · have hpos : 0 < pendingMessagesMax := by decide
    simp only [List.length_append, List.length_tail, List.length_singleton]
    omega
  · rw [List.length_append, List.length_singleton]
    omega

theorem length_pushMessages (ms : List μ) : ∀ queue : List μ, queue.length ≤ pendingMessagesMax →
    (pushMessages queue ms).1.length ≤ pendingMessagesMax := by
  induction ms with
  | nil => exact fun _ h => h
  | cons m ms ih => exact fun queue h => ih _ (length_pushMessage queue m h)

variable [DecidableEq μ]

theorem count_pushMessage (queue : List μ) (m x : μ) :
    (pushMessage queue m).1.count x + (pushMessage queue m).2.count x = queue.count x + [m].count x := by
  unfold pushMessage
  split_ifs with hfull
  · rw [List.count_append, ← List.drop_one]
    have hsplit := congrArg (List.count x) (List.take_append_drop 1 queue)
    rw [List.count_append] at hsplit
    dsimp only
    omega
  · rw [List.count_append, List.count_nil, Nat.add_zero]

theorem count_pushMessages (ms : List μ) (x : μ) : ∀ queue : List μ,
    (pushMessages queue ms).1.count x + (pushMessages queue ms).2.count x = queue.count x + ms.count x := by
  induction ms with
  | nil => exact fun _ => rfl
  | cons m ms ih =>
    intro queue
    have hone := count_pushMessage queue m x
    have hrest := ih (pushMessage queue m).1
    simp only [pushMessages, List.count_append]
    rw [← List.singleton_append, List.count_append]
    omega

theorem count_places (s : ChatRuns μ) (x : μ) : s.places.count x =
    s.arrived.count x + s.refused.count x + s.claimed.count x + s.cleared.count x + s.pending.count x +
      (s.turns.flatMap (·.hand)).count x + s.started.count x + s.seeded.count x + s.answered.count x +
        s.dropped.count x + s.lost.count x := by
  simp only [places, List.count_append]

/-! ## What an act can do -/

/-- A turn goes on with another hand, or concludes and may park. -/
structure Goes (s : ChatRuns μ) (turn turn' : LiveTurn μ) (parked : Option (ParkedTurn μ)) : Prop where
  resumes : turn'.resumes = turn.resumes
  parked : turn'.concluded = turn.concluded ∧ parked = s.parked ∨
    turn.concluded = false ∧ turn'.concluded = true ∧ (parked = s.parked ∨ parked = some turn.park)

inductive Effect (s : ChatRuns μ) : ChatRuns μ → Prop
  | send (m : μ) : Effect s { s with arrived := s.arrived ++ [m], sent := s.sent ++ [m] }
  | refuse {m : μ} {arrived : List μ} : s.arrived.Perm (m :: arrived) →
      Effect s { s with arrived, refused := m :: s.refused }
  | claim {m : μ} {arrived : List μ} : s.arrived.Perm (m :: arrived) → s.active = false →
      Effect s { s with arrived, active := true, claimed := m :: s.claimed }
  | push {m : μ} {refused : List μ} : s.refused.Perm (m :: refused) →
      Effect s { s with
        refused, pending := (pushMessage s.pending m).1, dropped := (pushMessage s.pending m).2 ++ s.dropped }
  | supersede {m : μ} {claimed : List μ} : s.claimed.Perm (m :: claimed) →
      Effect s { s with claimed, cleared := m :: s.cleared, parked := none }
  | start {m : μ} {cleared : List μ} : s.cleared.Perm (m :: cleared) →
      Effect s { s with
        cleared
        turns := { goal := m, resumes := s.resumed.getD 0, hand := [], concluded := false } :: s.turns
        resumed := none
        started := m :: s.started }
  | turn {turn : LiveTurn μ} {turns : List (LiveTurn μ)} (turn' : LiveTurn μ) (pending seeded dropped lost : List μ)
      (parked : Option (ParkedTurn μ)) (watching : Nat) : s.turns.Perm (turn :: turns) →
      (s.pending.length ≤ pendingMessagesMax → pending.length ≤ pendingMessagesMax) →
      (∀ x, pending.count x + turn'.hand.count x + seeded.count x + dropped.count x + lost.count x =
        s.pending.count x + turn.hand.count x + s.seeded.count x + s.dropped.count x + s.lost.count x) →
      Goes s turn turn' parked →
      Effect s { s with turns := turn' :: turns, pending, seeded, dropped, lost, parked, watching }
  | ended {turn : LiveTurn μ} {turns : List (LiveTurn μ)} (lost : List μ) : s.turns.Perm (turn :: turns) →
      (∀ x, lost.count x = turn.hand.count x + s.lost.count x) →
      Effect s { s with turns, active := false, lost }
  | answer : Effect s { s with pending := [], answered := s.pending ++ s.answered }
  | unpark (watching : Nat) : Effect s { s with watching, parked := none }
  | take (watching : Nat) {park : ParkedTurn μ} : s.parked = some park → park.resumes < continuationErrorRounds →
      Effect s { s with watching, parked := none, holding := park :: s.holding }
  | again {park : ParkedTurn μ} {holding : List (ParkedTurn μ)} : s.holding.Perm (park :: holding) →
      Effect s { s with
        holding
        resumed := some (park.resumes + 1)
        arrived := s.arrived ++ [park.goal]
        resent := s.resent ++ [park.goal] }

variable {s t : ChatRuns μ} {a : Act μ}

theorem step_effect (ht : s.step a = some t) : Effect s t := by
  cases a with
  | send m =>
    obtain rfl := Option.some.inj ht
    exact .send m
  | claim i =>
    obtain ⟨⟨m, arrived⟩, hpull, ht⟩ := Option.bind_eq_some_iff.mp ht
    dsimp only at ht
    split_ifs at ht with hactive
    · obtain rfl := Option.some.inj ht
      exact .refuse (pull_perm hpull)
    · obtain rfl := Option.some.inj ht
      exact .claim (pull_perm hpull) (Bool.eq_false_of_not_eq_true hactive)
  | push i =>
    obtain ⟨⟨m, refused⟩, hpull, ht⟩ := Option.bind_eq_some_iff.mp ht
    obtain rfl := Option.some.inj ht
    exact .push (pull_perm hpull)
  | supersede i =>
    obtain ⟨⟨m, claimed⟩, hpull, ht⟩ := Option.bind_eq_some_iff.mp ht
    obtain rfl := Option.some.inj ht
    exact .supersede (pull_perm hpull)
  | start i =>
    obtain ⟨⟨m, cleared⟩, hpull, ht⟩ := Option.bind_eq_some_iff.mp ht
    obtain rfl := Option.some.inj ht
    exact .start (pull_perm hpull)
  | drain i =>
    obtain ⟨⟨turn, turns⟩, hpull, ht⟩ := Option.bind_eq_some_iff.mp ht
    dsimp only at ht
    split_ifs at ht with hready
    obtain rfl := Option.some.inj ht
    refine .turn _ _ _ _ _ _ _ (pull_perm hpull) (fun _ => Nat.zero_le _) (fun x => ?_) ⟨rfl, .inl ⟨rfl, rfl⟩⟩
    simp only [List.isEmpty_iff.mp hready.2, List.count_nil]
    omega
  | seed i =>
    obtain ⟨⟨turn, turns⟩, hpull, ht⟩ := Option.bind_eq_some_iff.mp ht
    dsimp only at ht
    split at ht
    · cases ht
    · rename_i m hand hhand
      obtain rfl := Option.some.inj ht
      refine .turn _ _ _ _ _ _ _ (pull_perm hpull) id (fun x => ?_) ⟨rfl, .inl ⟨rfl, rfl⟩⟩
      simp only [hhand, List.count_cons]
      omega
  | seedFails i =>
    obtain ⟨⟨turn, turns⟩, hpull, ht⟩ := Option.bind_eq_some_iff.mp ht
    obtain rfl := Option.some.inj ht
    refine .turn _ _ _ _ _ _ _ (pull_perm hpull) id (fun x => ?_) ⟨rfl, .inl ⟨rfl, rfl⟩⟩
    simp only [List.count_append, List.count_nil]
    omega
  | stop i =>
    obtain ⟨⟨turn, turns⟩, hpull, ht⟩ := Option.bind_eq_some_iff.mp ht
    obtain rfl := Option.some.inj ht
    refine .turn _ _ _ _ _ _ _ (pull_perm hpull) (length_pushMessages turn.hand s.pending) (fun x => ?_)
      ⟨rfl, .inl ⟨rfl, rfl⟩⟩
    have hpushed := count_pushMessages turn.hand x s.pending
    simp only [List.count_append, List.count_nil]
    omega
  | park i =>
    obtain ⟨⟨turn, turns⟩, hpull, ht⟩ := Option.bind_eq_some_iff.mp ht
    dsimp only at ht
    split_ifs at ht with hready
    obtain rfl := Option.some.inj ht
    exact .turn _ _ _ _ _ _ _ (pull_perm hpull) id (fun _ => rfl) ⟨rfl, .inr ⟨hready.1, rfl, .inr rfl⟩⟩
  | conclude i =>
    obtain ⟨⟨turn, turns⟩, hpull, ht⟩ := Option.bind_eq_some_iff.mp ht
    dsimp only at ht
    split_ifs at ht with hready
    obtain rfl := Option.some.inj ht
    exact .turn _ _ _ _ _ _ _ (pull_perm hpull) id (fun _ => rfl) ⟨rfl, .inr ⟨hready.1, rfl, .inl rfl⟩⟩
  | release i =>
    obtain ⟨⟨turn, turns⟩, hpull, ht⟩ := Option.bind_eq_some_iff.mp ht
    dsimp only at ht
    split_ifs at ht with hready
    obtain rfl := Option.some.inj ht
    refine .ended s.lost (pull_perm hpull) fun x => ?_
    rw [List.isEmpty_iff.mp hready.2, List.count_nil, Nat.zero_add]
  | crash i =>
    obtain ⟨⟨turn, turns⟩, hpull, ht⟩ := Option.bind_eq_some_iff.mp ht
    obtain rfl := Option.some.inj ht
    exact .ended _ (pull_perm hpull) fun x => List.count_append
  | answer =>
    obtain rfl := Option.some.inj ht
    exact .answer
  | look =>
    simp only [step] at ht
    split_ifs at ht with hready
    obtain rfl := Option.some.inj ht
    have hnone := Option.isNone_iff_eq_none.mp hready.2
    have hsame := Effect.unpark (s := s) (s.watching - 1)
    rwa [← hnone] at hsame
  | wake =>
    simp only [step] at ht
    split_ifs at ht
    cases hparked : s.parked with
    | none =>
      simp only [hparked, Option.some.injEq] at ht
      subst ht
      exact .unpark _
    | some park =>
      simp only [hparked] at ht
      split_ifs at ht with hspent
      · obtain rfl := Option.some.inj ht
        exact .unpark _
      · obtain rfl := Option.some.inj ht
        exact .take _ hparked (not_le.mp hspent)
  | again i =>
    obtain ⟨⟨park, holding⟩, hpull, ht⟩ := Option.bind_eq_some_iff.mp ht
    obtain rfl := Option.some.inj ht
    exact .again (pull_perm hpull)
  | startOver =>
    obtain rfl := Option.some.inj ht
    exact .unpark s.watching

/-! ## The books of a conversation -/

structure Counted (s : ChatRuns μ) : Prop where
  single : s.claimed.length + s.cleared.length + s.turns.length = s.active.toNat
  bounded : s.pending.length ≤ pendingMessagesMax
  kept : ∀ x, (s.sent ++ s.resent).count x = s.places.count x
  chained : s.chains ≤ s.sent.length

theorem Counted.start : Counted (ChatRuns.start (μ := μ)) := ⟨rfl, Nat.zero_le _, fun _ => rfl, Nat.le_refl 0⟩

theorem single_effect (h : Counted s) (he : Effect s t) :
    t.claimed.length + t.cleared.length + t.turns.length = t.active.toNat := by
  have hsingle := h.single
  cases he with
  | claim hperm hidle =>
    rw [hidle, Bool.toNat_false] at hsingle
    simp only [List.length_cons, Bool.toNat_true]
    omega
  | supersede hperm =>
    have hlength := hperm.length_eq
    simp only [List.length_cons] at hlength ⊢
    omega
  | start hperm =>
    have hlength := hperm.length_eq
    simp only [List.length_cons] at hlength ⊢
    omega
  | turn _ _ _ _ _ _ _ hperm =>
    have hlength := hperm.length_eq
    simp only [List.length_cons] at hlength ⊢
    omega
  | ended _ hperm =>
    have hlength := hperm.length_eq
    have hone := s.active.toNat_le
    simp only [List.length_cons, Bool.toNat_false] at hlength ⊢
    omega
  | _ => exact hsingle

theorem bounded_effect (h : Counted s) (he : Effect s t) : t.pending.length ≤ pendingMessagesMax := by
  cases he with
  | push => exact length_pushMessage s.pending _ h.bounded
  | turn _ _ _ _ _ _ _ _ hbounded => exact hbounded h.bounded
  | answer => exact Nat.zero_le _
  | _ => exact h.bounded

theorem kept_effect (h : Counted s) (he : Effect s t) (x : μ) : (t.sent ++ t.resent).count x = t.places.count x := by
  have hkept := h.kept x
  simp only [count_places, List.count_append] at hkept ⊢
  cases he with
  | send | again | answer =>
    simp only [List.count_append, List.count_nil]
    omega
  | refuse hperm | claim hperm | supersede hperm =>
    have hcount := hperm.count_eq x
    simp only [List.count_cons] at hcount ⊢
    omega
  | @push m refused hperm =>
    have hcount := hperm.count_eq x
    have hpush := count_pushMessage s.pending m x
    simp only [List.count_cons, List.count_append, List.count_nil] at hcount hpush ⊢
    omega
  | start hperm =>
    have hcount := hperm.count_eq x
    simp only [List.count_cons, List.flatMap_cons, List.nil_append] at hcount ⊢
    omega
  | turn _ _ _ _ _ _ _ hperm _ hmsgs =>
    have hhands := (hperm.flatMap_right (·.hand)).count_eq x
    have hx := hmsgs x
    simp only [List.flatMap_cons, List.count_append] at hhands ⊢
    omega
  | ended _ hperm hlost =>
    have hhands := (hperm.flatMap_right (·.hand)).count_eq x
    have hx := hlost x
    simp only [List.flatMap_cons, List.count_append] at hhands ⊢
    omega
  | unpark | take => exact hkept

theorem chained_effect (h : Counted s) (he : Effect s t) : t.chains ≤ t.sent.length := by
  have hchained := h.chained
  simp only [chains] at hchained ⊢
  cases he with
  | send m =>
    simp only [List.length_append]
    omega
  | refuse hperm | claim hperm =>
    have hlength := hperm.length_eq
    simp only [List.length_cons] at hlength ⊢
    omega
  | push | answer => exact hchained
  | supersede hperm =>
    have hlength := hperm.length_eq
    simp only [List.length_cons, Option.toList_none, List.length_nil] at hlength ⊢
    omega
  | start hperm =>
    have hlength := hperm.length_eq
    simp only [going_cons, List.length_cons, Bool.not_false, Bool.toNat_true] at hlength ⊢
    omega
  | turn _ _ _ _ _ _ _ hperm _ _ hgoes =>
    have hgoing := going_perm hperm
    simp only [going_cons]
    rcases hgoes.parked with ⟨hsame, rfl⟩ | ⟨hon, hover, rfl | rfl⟩
    · rw [hsame]
      omega
    · rw [hon] at hgoing
      rw [hover]
      simp only [Bool.not_false, Bool.toNat_true, Bool.not_true, Bool.toNat_false] at hgoing ⊢
      omega
    · rw [hon] at hgoing
      rw [hover]
      simp only [Bool.not_false, Bool.toNat_true, Bool.not_true, Bool.toNat_false, Option.toList_some,
        List.length_singleton] at hgoing ⊢
      omega
  | ended _ hperm =>
    have hgoing := going_perm hperm
    dsimp only
    omega
  | unpark =>
    simp only [Option.toList_none, List.length_nil]
    omega
  | take _ hparked =>
    simp only [hparked, Option.toList_some, List.length_singleton] at hchained
    simp only [Option.toList_none, List.length_nil, List.length_cons]
    omega
  | again hperm =>
    have hlength := hperm.length_eq
    simp only [List.length_append, List.length_cons, List.length_nil] at hlength ⊢
    omega

theorem Counted.effect (h : Counted s) (he : Effect s t) : Counted t :=
  ⟨single_effect h he, bounded_effect h he, kept_effect h he, chained_effect h he⟩

/-! ## How often work is resumed -/

/-- No count passes the brake, and what a waiter holds is below it. -/
structure Braked (s : ChatRuns μ) : Prop where
  turns : ∀ turn ∈ s.turns, turn.resumes ≤ continuationErrorRounds
  parked : ∀ park ∈ s.parked, park.resumes ≤ continuationErrorRounds
  holding : ∀ park ∈ s.holding, park.resumes < continuationErrorRounds
  resumed : s.resumed.getD 0 ≤ continuationErrorRounds

omit [DecidableEq μ] in
theorem Braked.start : Braked (ChatRuns.start (μ := μ)) := by
  refine ⟨?_, ?_, ?_, Nat.zero_le _⟩
  all_goals simp [ChatRuns.start]

theorem Braked.effect (h : Braked s) (he : Effect s t) : Braked t := by
  cases he with
  | send | refuse | claim | push | answer => exact ⟨h.turns, h.parked, h.holding, h.resumed⟩
  | supersede | unpark => exact ⟨h.turns, by simp, h.holding, h.resumed⟩
  | start => exact ⟨List.forall_mem_cons.mpr ⟨h.resumed, h.turns⟩, h.parked, h.holding, Nat.zero_le _⟩
  | turn turn' _ _ _ _ _ _ hperm _ _ hgoes =>
    obtain ⟨hturn, hturns⟩ := List.forall_mem_cons.mp fun turn hmem => h.turns turn (hperm.mem_iff.mpr hmem)
    refine ⟨List.forall_mem_cons.mpr ⟨hgoes.resumes ▸ hturn, hturns⟩, ?_, h.holding, h.resumed⟩
    rcases hgoes.parked with ⟨_, rfl⟩ | ⟨_, _, rfl | rfl⟩
    · exact h.parked
    · exact h.parked
    · intro park hpark
      obtain rfl := Option.some.inj hpark
      exact hturn
  | ended _ hperm =>
    exact ⟨fun turn hmem => h.turns turn (hperm.mem_iff.mpr (.tail _ hmem)), h.parked, h.holding, h.resumed⟩
  | take _ _ hbelow => exact ⟨h.turns, by simp, List.forall_mem_cons.mpr ⟨hbelow, h.holding⟩, h.resumed⟩
  | again hperm =>
    obtain ⟨hpark, hholding⟩ := List.forall_mem_cons.mp fun park hmem => h.holding park (hperm.mem_iff.mpr hmem)
    exact ⟨h.turns, h.parked, hholding, hpark⟩

/-- As long as no more than one message was sent, every count is that of all resumes. -/
structure Alone (s : ChatRuns μ) : Prop where
  idle : s.sent = [] → s.resent = [] ∧ s.resumed = none
  fresh : s.sent.length ≤ 1 → 0 < s.arrived.length + s.claimed.length + s.cleared.length →
    s.resumed.getD 0 = s.resent.length
  turns : s.sent.length ≤ 1 → ∀ turn ∈ s.turns, turn.concluded = false → turn.resumes = s.resent.length
  parked : s.sent.length ≤ 1 → ∀ park ∈ s.parked, park.resumes = s.resent.length
  holding : s.sent.length ≤ 1 → ∀ park ∈ s.holding, park.resumes = s.resent.length
  few : s.sent.length ≤ 1 → s.resent.length ≤ continuationErrorRounds

omit [DecidableEq μ] in
theorem Alone.start : Alone (ChatRuns.start (μ := μ)) := by
  refine ⟨fun _ => ⟨rfl, rfl⟩, fun _ _ => rfl, ?_, ?_, ?_, fun _ => Nat.zero_le _⟩
  all_goals simp [ChatRuns.start]

omit [DecidableEq μ] in
/-- Only calls are on their way. -/
theorem Alone.of_quiet (hidle : s.sent = [] → s.resent = [] ∧ s.resumed = none)
    (hquiet : s.sent.length ≤ 1 → going s.turns = 0 ∧ s.parked.toList.length = 0 ∧ s.holding.length = 0)
    (hfresh : s.sent.length ≤ 1 → s.resumed.getD 0 = s.resent.length)
    (hfew : s.sent.length ≤ 1 → s.resent.length ≤ continuationErrorRounds) : Alone s := by
  refine ⟨hidle, fun hone _ => hfresh hone, fun hone turn hmem hon => ?_, fun hone park hpark => ?_,
    fun hone park hmem => ?_, hfew⟩
  · rw [concluded_of_going (hquiet hone).1 turn hmem] at hon
    cases hon
  · rw [Option.toList_eq_nil_iff.mp (List.eq_nil_of_length_eq_zero (hquiet hone).2.1)] at hpark
    cases hpark
  · rw [List.eq_nil_of_length_eq_zero (hquiet hone).2.2] at hmem
    cases hmem

/-- A message is sent alone as the first one. -/
theorem Alone.send (h : Alone s) (hc : Counted s) (m : μ) :
    Alone { s with arrived := s.arrived ++ [m], sent := s.sent ++ [m] } := by
  have hnil : (s.sent ++ [m]).length ≤ 1 → s.sent = [] := by
    intro hone
    rw [List.length_append, List.length_singleton] at hone
    exact List.eq_nil_of_length_eq_zero (by omega)
  have hchained := hc.chained
  unfold chains at hchained
  apply Alone.of_quiet
  · intro habsurd
    simp at habsurd
  · intro hone
    rw [hnil hone, List.length_nil] at hchained
    dsimp only
    omega
  · intro hone
    obtain ⟨hresent, hresumed⟩ := h.idle (hnil hone)
    simp only [hresent, hresumed, Option.getD_none, List.length_nil]
  · intro hone
    simp only [(h.idle (hnil hone)).1, List.length_nil, Nat.zero_le]

theorem Alone.again (h : Alone s) (hc : Counted s) (hb : Braked s) {park : ParkedTurn μ}
    {holding : List (ParkedTurn μ)} (hperm : s.holding.Perm (park :: holding)) :
    Alone { s with
      holding
      resumed := some (park.resumes + 1)
      arrived := s.arrived ++ [park.goal]
      resent := s.resent ++ [park.goal] } := by
  have hmem : park ∈ s.holding := hperm.mem_iff.mpr (.head _)
  have hlength : s.holding.length = holding.length + 1 := hperm.length_eq
  have hchained := hc.chained
  unfold chains at hchained
  apply Alone.of_quiet
  · intro hnil
    dsimp only at hnil
    rw [hnil, List.length_nil] at hchained
    omega
  · intro hone
    dsimp only at hone ⊢
    omega
  · intro hone
    simp only [Option.getD_some, List.length_append, List.length_singleton, h.holding hone park hmem]
  · intro hone
    have hbelow := hb.holding park hmem
    rw [h.holding hone park hmem] at hbelow
    rw [List.length_append, List.length_singleton]
    omega

theorem Alone.effect (h : Alone s) (hc : Counted s) (hb : Braked s) (he : Effect s t) : Alone t := by
  cases he with
  | send m => exact h.send hc m
  | again hperm => exact h.again hc hb hperm
  | refuse hperm | claim hperm | supersede hperm =>
    have hlength := hperm.length_eq
    refine ⟨h.idle, fun hone hpos => h.fresh hone ?_, h.turns, ?_, h.holding, h.few⟩
    · simp only [List.length_cons] at hlength hpos ⊢
      omega
    · first | exact h.parked | simp
  | push | answer => exact ⟨h.idle, h.fresh, h.turns, h.parked, h.holding, h.few⟩
  | start hperm =>
    have hlength := hperm.length_eq
    have hchained := hc.chained
    simp only [chains, List.length_cons] at hlength hchained
    refine ⟨fun hnil => ⟨(h.idle hnil).1, rfl⟩, fun hone hpos => ?_, fun hone => ?_, h.parked, h.holding, h.few⟩
    · simp only at hone hpos
      omega
    · exact List.forall_mem_cons.mpr ⟨fun _ => h.fresh hone (by omega), h.turns hone⟩
  | turn turn' _ _ _ _ _ _ hperm _ _ hgoes =>
    have hturns := fun hone => List.forall_mem_cons.mp fun turn hmem => h.turns hone turn (hperm.mem_iff.mpr hmem)
    refine ⟨h.idle, h.fresh, fun hone => List.forall_mem_cons.mpr ⟨fun hon => ?_, (hturns hone).2⟩, fun hone => ?_,
      h.holding, h.few⟩
    · rcases hgoes.parked with ⟨hsame, _⟩ | ⟨_, hover, _⟩
      · rw [hgoes.resumes]
        exact (hturns hone).1 (hsame ▸ hon)
      · rw [hover] at hon
        cases hon
    · rcases hgoes.parked with ⟨_, rfl⟩ | ⟨hon, _, rfl | rfl⟩
      · exact h.parked hone
      · exact h.parked hone
      · intro park hpark
        obtain rfl := Option.some.inj hpark
        exact (hturns hone).1 hon
  | ended _ hperm =>
    exact ⟨h.idle, h.fresh, fun hone turn hmem => h.turns hone turn (hperm.mem_iff.mpr (.tail _ hmem)), h.parked,
      h.holding, h.few⟩
  | unpark => exact ⟨h.idle, h.fresh, h.turns, by simp, h.holding, h.few⟩
  | take _ hparked =>
    exact ⟨h.idle, h.fresh, h.turns, by simp,
      fun hone => List.forall_mem_cons.mpr ⟨h.parked hone _ hparked, h.holding hone⟩, h.few⟩

/-- However messages, turns, waiters and drains interleave, a conversation has at most one turn, its queue is
bounded, each message is at one place, no count of resumes passes the brake, and a single message is not resumed
more often than that. -/
theorem chat_runs_safe (h : Moves step (fun _ _ => True) (start (μ := μ)) s) :
    s.claimed.length + s.cleared.length + s.turns.length = s.active.toNat ∧
    s.pending.length ≤ pendingMessagesMax ∧
    (s.sent ++ s.resent).Perm s.places ∧
    (∀ turn ∈ s.turns, turn.resumes ≤ continuationErrorRounds) ∧
    (∀ park ∈ s.parked.toList ++ s.holding, park.resumes ≤ continuationErrorRounds) ∧
    (s.sent.length ≤ 1 → s.resent.length ≤ continuationErrorRounds) := by
  have hall : Counted s ∧ Braked s ∧ Alone s := by
    refine h.invariant (I := fun s => Counted s ∧ Braked s ∧ Alone s) ?_ ⟨.start, .start, .start⟩
    intro s a t _ ht ⟨hc, hb, ha⟩
    have he := step_effect ht
    exact ⟨hc.effect he, hb.effect he, ha.effect hc hb he⟩
  obtain ⟨hc, hb, ha⟩ := hall
  refine ⟨hc.single, hc.bounded, List.perm_iff_count.mpr hc.kept, hb.turns, fun park hmem => ?_, ha.few⟩
  rcases List.mem_append.mp hmem with hparked | hholding
  · exact hb.parked park (Option.mem_toList.mp hparked)
  · exact (hb.holding park hholding).le

/-- A second message is read by the turn of the first, which parks and is resumed. -/
theorem chat_runs_safe_resumed : ∃ s : ChatRuns ℕ, s.seeded = [2] ∧ s.turns.map (·.resumes) = [1] ∧
    (s.sent ++ s.resent).Perm s.places ∧
    (∀ turn ∈ s.turns, turn.resumes ≤ continuationErrorRounds) := by
  have hrun : runActs step (fun _ _ => True) (start : ChatRuns ℕ) [.send 1, .claim 0, .send 2, .claim 0, .push 0,
    .supersede 0, .start 0, .drain 0, .seed 0, .park 0, .release 0, .wake, .again 0, .claim 0, .supersede 0,
    .start 0] = some _ := rfl
  obtain ⟨_, _, hplaces, hturns, _⟩ := chat_runs_safe (.of_acts hrun)
  exact ⟨_, rfl, rfl, hplaces, hturns⟩

end ChatRuns

end Nanna.Daemon
