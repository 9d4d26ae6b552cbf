import Mathlib.Logic.Relation
import Mathlib.Data.Fintype.Card
import Mathlib.Data.Set.Finite.List
import Mathlib.Order.WellFounded
import Mathlib.Data.List.Basic
import Mathlib.Algebra.BigOperators.Group.List.Basic
import Mathlib.Algebra.Ring.Nat

/-!
# Finite directed graphs: cycles, worklist searches, parent chains

* `Acyclic r`: no node reaches itself. `Acyclic.of_through` adds edges that all touch one node,
  `Acyclic.of_transGen` adds shortcuts, `Acyclic.exists_sink` finds a node without successors in
  a nonempty finite set.
* `walk`: pop a queue front to back, stop at the first node a test accepts, push the successors
  of each fresh node. `walk_eq_none_iff` says that it finds nothing exactly when no node
  reachable from the queue is accepted; the fuel is the number of pushes the search can make.
* `collect`: the breadth-first closure of one node. `mem_collect_iff` says it is reachability.
* `Up` and `Depth`: the chains of a partial parent function. `markUp` marks the ends of chains, and
  what is marked is closed under parents (`markAll_spec`).
-/

namespace Nanna.Lib

open Relation

variable {α : Type*} {r r' : α → α → Prop}

/-- A path among some nodes is a path of every relation that has its steps there. -/
theorem path_within {P : α → Prop} {a b : α} (hstep : ∀ {a b}, P a → r a b → P b ∧ r' a b) (ha : P a)
    (h : ReflTransGen r a b) : ReflTransGen r' a b := by
  induction h using ReflTransGen.head_induction_on with
  | refl => exact .refl
  | head hlink _ ih => exact .head (hstep ha hlink).2 (ih (hstep ha hlink).1)

/-! ## Cycles -/

/-- No node reaches itself. -/
def Acyclic (r : α → α → Prop) : Prop := ∀ a, ¬ TransGen r a a

/-- A cycle through `t` leaves it, comes back, and avoids it in between. -/
theorem exists_first_return {t : α} (h : TransGen r t t) :
    ∃ y z, r t y ∧ ReflTransGen (fun a b => r a b ∧ a ≠ t ∧ b ≠ t) y z ∧ r z t := by
  have key : ∀ a, TransGen r a t → a ≠ t →
      ∃ z, ReflTransGen (fun a b => r a b ∧ a ≠ t ∧ b ≠ t) a z ∧ r z t := by
    intro a ha
    induction ha using TransGen.head_induction_on with
    | @single a hat => exact fun _ => ⟨a, .refl, hat⟩
    | @head a b hab _ ih =>
      intro hne
      by_cases hb : b = t
      · exact ⟨a, .refl, hb ▸ hab⟩
      · obtain ⟨z, hbz, hzt⟩ := ih hb
        exact ⟨z, hbz.head ⟨hab, hne, hb⟩, hzt⟩
  obtain ⟨y, hty, hyt⟩ := TransGen.head'_iff.mp h
  by_cases hy : y = t
  · exact ⟨t, t, hy ▸ hty, .refl, hy ▸ hty⟩
  · rcases ReflTransGen.cases_head hyt with heq | ⟨b, hyb, hbt⟩
    · exact absurd heq hy
    · obtain ⟨z, hyz, hzt⟩ := key y (TransGen.head' hyb hbt) hy
      exact ⟨y, z, hty, hyz, hzt⟩

namespace Acyclic

/-- Every edge of `r'` is a path of `r`: shortcuts close no cycle. -/
theorem of_transGen (h : Acyclic r) (hsub : ∀ a b, r' a b → TransGen r a b) : Acyclic r' :=
  fun a ha => h a (TransGen.closed hsub _ _ ha)

theorem mono (h : Acyclic r) (hsub : ∀ a b, r' a b → r a b) : Acyclic r' :=
  h.of_transGen fun a b hab => .single (hsub a b hab)

/-- A path of `r'` either keeps to `r` or passes through `t`. -/
theorem path_or_through {t : α} (hsub : ∀ a b, a ≠ t → b ≠ t → r' a b → r a b) {a b : α}
    (h : TransGen r' a b) : TransGen r a b ∨ ReflTransGen r' a t ∧ ReflTransGen r' t b := by
  induction h with
  | @single b hab =>
    by_cases ha : a = t
    · exact .inr ⟨ha ▸ .refl, ha ▸ .single hab⟩
    · by_cases hb : b = t
      · exact .inr ⟨hb ▸ .single hab, hb ▸ .refl⟩
      · exact .inl (.single (hsub a b ha hb hab))
  | @tail b c hab hbc ih =>
    rcases ih with ih | ⟨hat, htb⟩
    · by_cases hb : b = t
      · exact .inr ⟨hb ▸ hab.to_reflTransGen, hb ▸ .single hbc⟩
      · by_cases hc : c = t
        · exact .inr ⟨hc ▸ hab.to_reflTransGen.tail hbc, hc ▸ .refl⟩
        · exact .inl (ih.tail (hsub b c hb hc hbc))
    · exact .inr ⟨hat, htb.tail hbc⟩

/-- Edges that all touch `t` close a cycle only through `t`. -/
theorem of_through {t : α} (h : Acyclic r) (hsub : ∀ a b, a ≠ t → b ≠ t → r' a b → r a b)
    (ht : ¬ TransGen r' t t) : Acyclic r' := by
  intro a ha
  rcases path_or_through hsub ha with hr | ⟨hat, hta⟩
  · exact h a hr
  · exact ht (TransGen.trans_right hta (TransGen.trans_left ha hat))

/-- Among finitely many nodes, one has no successor among them. -/
theorem exists_sink (h : Acyclic r) (s : List α) (hs : s ≠ []) : ∃ a ∈ s, ∀ b ∈ s, ¬ r a b := by
  let R : {a // a ∈ s} → {a // a ∈ s} → Prop := fun b a => TransGen r a.1 b.1
  have : IsTrans _ R := ⟨fun a b c hab hbc => TransGen.trans hbc hab⟩
  have : Std.Irrefl R := ⟨fun a ha => h a.1 ha⟩
  have : Finite {a // a ∈ s} := s.finite_toSet
  have hwf : WellFounded R := Finite.wellFounded_of_trans_of_irrefl R
  obtain ⟨a, ha⟩ := List.exists_mem_of_ne_nil s hs
  obtain ⟨m, -, hm⟩ := hwf.has_min Set.univ ⟨⟨a, ha⟩, trivial⟩
  exact ⟨m.1, m.2, fun b hb hr => hm ⟨b, hb⟩ trivial (.single hr)⟩

end Acyclic

/-! ## The stopping search -/

section Walk

variable [DecidableEq α] (succ : α → List α) (stop : α → Bool)

/-- One queue, one visited set: stop at an accepted node, skip a visited one, expand a fresh one. -/
def walkFuel : Nat → List α → List α → Option α
  | 0, _, _ => none
  | _ + 1, [], _ => none
  | fuel + 1, a :: queue, visited =>
    if stop a then some a
    else if a ∈ visited then walkFuel fuel queue visited
    else walkFuel fuel (queue ++ succ a) (a :: visited)

/-- The pushes still possible: the successors of the nodes not yet visited. -/
def pushesLeft (nodes visited : List α) : Nat :=
  ((nodes.filter (· ∉ visited)).map fun a => (succ a).length).sum

/-- The search over the graph whose nodes with successors are all in `nodes`. -/
def walk (nodes queue : List α) : Option α :=
  walkFuel succ stop (queue.length + pushesLeft succ nodes [] + 1) queue []

variable {succ stop}

theorem pushesLeft_cons_le (succ : α → List α) {nodes visited : List α} {a : α} (ha : a ∉ visited) (hn : a ∈ nodes) :
    (succ a).length + pushesLeft succ nodes (a :: visited) ≤ pushesLeft succ nodes visited := by
  unfold pushesLeft
  induction nodes with
  | nil => simp at hn
  | cons b nodes ih =>
    by_cases hmem : a ∈ nodes
    · have ih := ih hmem
      by_cases hba : b = a
      · subst hba
        simp only [List.mem_cons, not_or, List.filter_cons, not_true_eq_false, false_and,
          decide_false, Bool.false_eq_true, if_false, ha, not_false_eq_true, decide_true, if_true,
          List.map_cons, List.sum_cons] at ih ⊢
        omega
      · by_cases hb : b ∈ visited <;>
          simp only [List.mem_cons, not_or, List.filter_cons, hba, hb, not_false_eq_true,
            not_true_eq_false, and_true, and_false, decide_true, decide_false, if_true,
            Bool.false_eq_true, if_false, List.map_cons, List.sum_cons] at ih ⊢ <;> omega
    · have hba : b = a := by
        rcases List.mem_cons.mp hn with h | h
        · exact h.symm
        · exact absurd h hmem
      subst hba
      have hrest : nodes.filter (fun x => decide (x ∉ b :: visited)) =
          nodes.filter (fun x => decide (x ∉ visited)) := by
        refine List.filter_congr fun x hx => ?_
        have hxb : x ≠ b := fun h => hmem (h ▸ hx)
        simp [hxb]
      rw [List.filter_cons, List.filter_cons, hrest]
      simp [ha]

/-- A search that finds nothing leaves a set that holds the queue, is closed and is not accepted. -/
theorem walkFuel_none {nodes : List α} (hn : ∀ a, succ a ≠ [] → a ∈ nodes) :
    ∀ (fuel : Nat) (queue visited : List α),
      queue.length + pushesLeft succ nodes visited < fuel →
      (∀ v ∈ visited, stop v = false ∧ ∀ b ∈ succ v, b ∈ visited ∨ b ∈ queue) →
      walkFuel succ stop fuel queue visited = none →
      ∃ C : α → Prop, (∀ q ∈ queue, C q) ∧ (∀ v ∈ visited, C v) ∧
        (∀ a, C a → stop a = false ∧ ∀ b ∈ succ a, C b) := by
  intro fuel
  induction fuel with
  | zero => intro _ _ h; omega
  | succ fuel ih =>
    intro queue visited hfuel hinv hnone
    cases queue with
    | nil =>
      refine ⟨(· ∈ visited), by simp, fun _ h => h, fun a ha => ⟨(hinv a ha).1, fun b hb => ?_⟩⟩
      simpa using (hinv a ha).2 b hb
    | cons a queue =>
      rw [walkFuel] at hnone
      split_ifs at hnone with hstop hvis
      · have hinv' : ∀ v ∈ visited, stop v = false ∧ ∀ b ∈ succ v, b ∈ visited ∨ b ∈ queue := by
          refine fun v hv => ⟨(hinv v hv).1, fun b hb => ?_⟩
          rcases (hinv v hv).2 b hb with h | h
          · exact .inl h
          · rcases List.mem_cons.mp h with rfl | h
            · exact .inl hvis
            · exact .inr h
        obtain ⟨C, hq, hv, hC⟩ := ih queue visited (by simp at hfuel; omega) hinv' hnone
        exact ⟨C, fun q hq' => (List.mem_cons.mp hq').elim (fun h => h ▸ hv a hvis) (hq q), hv, hC⟩
      · have hfuel' : (queue ++ succ a).length + pushesLeft succ nodes (a :: visited) < fuel := by
          by_cases hs : succ a = []
          · have hle : pushesLeft succ nodes (a :: visited) ≤ pushesLeft succ nodes visited := by
              by_cases hmem : a ∈ nodes
              · have := pushesLeft_cons_le succ hvis hmem
                omega
              · refine le_of_eq ?_
                unfold pushesLeft
                congr 2
                refine List.filter_congr fun x hx => ?_
                have hxa : x ≠ a := fun h => hmem (h ▸ hx)
                simp [hxa]
            simp [hs] at hfuel ⊢
            omega
          · have := pushesLeft_cons_le succ hvis (hn a hs)
            simp at hfuel ⊢
            omega
        have hinv' : ∀ v ∈ a :: visited, stop v = false ∧
            ∀ b ∈ succ v, b ∈ a :: visited ∨ b ∈ queue ++ succ a := by
          intro v hv
          rcases List.mem_cons.mp hv with rfl | hv
          · exact ⟨by simpa using hstop, fun b hb => .inr (by simp [hb])⟩
          · refine ⟨(hinv v hv).1, fun b hb => ?_⟩
            rcases (hinv v hv).2 b hb with h | h
            · exact .inl (by simp [h])
            · rcases List.mem_cons.mp h with rfl | h
              · exact .inl (by simp)
              · exact .inr (by simp [h])
        obtain ⟨C, hq, hv, hC⟩ := ih (queue ++ succ a) (a :: visited) hfuel' hinv' hnone
        refine ⟨C, fun q hq' => ?_, fun v hv' => hv v (List.mem_cons_of_mem _ hv'), hC⟩
        rcases List.mem_cons.mp hq' with rfl | h
        · exact hv q (by simp)
        · exact hq q (by simp [h])

theorem walkFuel_some : ∀ (fuel : Nat) (queue visited : List α) (a : α),
    walkFuel succ stop fuel queue visited = some a →
    stop a = true ∧ ∃ q ∈ queue, ReflTransGen (fun x y => y ∈ succ x) q a := by
  intro fuel
  induction fuel with
  | zero => intro _ _ _ h; simp [walkFuel] at h
  | succ fuel ih =>
    intro queue visited a h
    cases queue with
    | nil => simp [walkFuel] at h
    | cons b queue =>
      rw [walkFuel] at h
      split_ifs at h with hstop hvis
      · obtain rfl : b = a := by simpa using h
        exact ⟨hstop, b, by simp, .refl⟩
      · obtain ⟨ha, q, hq, hr⟩ := ih _ _ _ h
        exact ⟨ha, q, by simp [hq], hr⟩
      · obtain ⟨ha, q, hq, hr⟩ := ih _ _ _ h
        rcases List.mem_append.mp hq with hq | hq
        · exact ⟨ha, q, by simp [hq], hr⟩
        · exact ⟨ha, b, by simp, ReflTransGen.head hq hr⟩

/-- **The search is exact**: it finds nothing iff no node reachable from the queue is accepted. -/
theorem walk_eq_none_iff {nodes queue : List α} (hn : ∀ a, succ a ≠ [] → a ∈ nodes) :
    walk succ stop nodes queue = none ↔
      ∀ q ∈ queue, ∀ a, ReflTransGen (fun x y => y ∈ succ x) q a → stop a = false := by
  constructor
  · intro h q hq a hqa
    obtain ⟨C, hCq, -, hC⟩ := walkFuel_none hn _ queue [] (by omega) (by simp) h
    have hCa : C a := by
      induction hqa with
      | refl => exact hCq q hq
      | tail _ hbc ih => exact (hC _ ih).2 _ hbc
    exact (hC a hCa).1
  · intro h
    cases hw : walk succ stop nodes queue with
    | none => rfl
    | some a =>
      obtain ⟨ha, q, hq, hr⟩ := walkFuel_some _ _ _ _ hw
      rw [h q hq a hr] at ha
      exact absurd ha (by simp)

end Walk

/-! ## The collecting search -/

section Collect

variable [DecidableEq α] (succ : α → List α)

/-- The inner loop over one node's successors: a fresh one enters both `seen` and the queue. -/
def pushFresh : List α → List α → List α → List α × List α
  | seen, queue, [] => (seen, queue)
  | seen, queue, b :: bs =>
    if b ∈ seen then pushFresh seen queue bs else pushFresh (seen ++ [b]) (queue ++ [b]) bs

def collectFuel : Nat → List α → List α → List α
  | 0, _, seen => seen
  | _ + 1, [], seen => seen
  | fuel + 1, a :: queue, seen =>
    collectFuel fuel (pushFresh seen queue (succ a)).2 (pushFresh seen queue (succ a)).1

/-- The nodes reachable from `root`, in breadth-first order, `root` first. -/
def collect (nodes : List α) (root : α) : List α :=
  collectFuel succ (nodes.length + 2) [root] [root]

variable {succ}

/-- The nodes not seen yet. -/
def unseen (nodes seen : List α) : Nat := (nodes.filter (· ∉ seen)).length

theorem unseen_snoc_lt {nodes seen : List α} {b : α} (hb : b ∉ seen) (hn : b ∈ nodes) :
    unseen nodes (seen ++ [b]) < unseen nodes seen := by
  unfold unseen
  have hfil : nodes.filter (fun x => decide (x ∉ seen ++ [b])) =
      (nodes.filter (fun x => decide (x ∉ seen))).filter (fun x => decide (x ≠ b)) := by
    rw [List.filter_filter]
    refine List.filter_congr fun x _ => ?_
    by_cases hx : x = b <;> by_cases hs : x ∈ seen <;> simp [hx, hs]
  rw [hfil]
  refine List.length_filter_lt_length_iff_exists.mpr ⟨b, ?_, by simp⟩
  simp [hn, hb]

/-- What the inner loop does: both lists grow by the same fresh successors. -/
theorem pushFresh_spec {nodes : List α} (bs : List α) (hbs : ∀ b ∈ bs, b ∈ nodes) :
    ∀ seen queue : List α, ∃ fresh : List α,
      pushFresh seen queue bs = (seen ++ fresh, queue ++ fresh) ∧ (∀ x ∈ fresh, x ∈ bs) ∧
      (∀ b ∈ bs, b ∈ seen ++ fresh) ∧
      fresh.length + unseen nodes (seen ++ fresh) ≤ unseen nodes seen ∧
      (seen.Nodup → (seen ++ fresh).Nodup) := by
  induction bs with
  | nil => intro seen queue; exact ⟨[], by simp [pushFresh]⟩
  | cons b bs ih =>
    intro seen queue
    have ih := ih fun x hx => hbs x (List.mem_cons_of_mem _ hx)
    rw [pushFresh]
    split_ifs with hb
    · obtain ⟨fresh, h1, h2, h3, h4, h5⟩ := ih seen queue
      refine ⟨fresh, h1, fun x hx => List.mem_cons_of_mem _ (h2 x hx), fun x hx => ?_, h4, h5⟩
      rcases List.mem_cons.mp hx with rfl | hx
      · exact List.mem_append_left _ hb
      · exact h3 x hx
    · obtain ⟨fresh, h1, h2, h3, h4, h5⟩ := ih (seen ++ [b]) (queue ++ [b])
      have hlt := unseen_snoc_lt hb (hbs b (by simp))
      refine ⟨b :: fresh, by simp [h1], fun x hx => ?_, fun x hx => ?_, ?_, fun hnd => ?_⟩
      · rcases List.mem_cons.mp hx with rfl | hx
        · simp
        · exact List.mem_cons_of_mem _ (h2 x hx)
      · rcases List.mem_cons.mp hx with rfl | hx
        · simp
        · simpa using h3 x hx
      · simp only [List.append_assoc, List.singleton_append, List.length_cons] at h4 ⊢
        omega
      · have := h5 (List.nodup_append.mpr ⟨hnd, by simp, fun x hx y hy => by
          rw [List.mem_singleton.mp hy]; rintro rfl; exact hb hx⟩)
        simpa using this

/-- The collected list holds the queue, is closed, and everything in it was reached. -/
theorem collectFuel_spec {nodes : List α} (hn : ∀ a, ∀ b ∈ succ a, b ∈ nodes) (root : α) :
    ∀ (fuel : Nat) (queue seen : List α), queue.length + unseen nodes seen < fuel →
      (∀ q ∈ queue, q ∈ seen) →
      (∀ v ∈ seen, v ∈ queue ∨ ∀ b ∈ succ v, b ∈ seen) →
      (∀ v ∈ seen, ReflTransGen (fun x y => y ∈ succ x) root v) → seen.Nodup →
      let out := collectFuel succ fuel queue seen
      (∀ v ∈ seen, v ∈ out) ∧ (∀ v ∈ out, ∀ b ∈ succ v, b ∈ out) ∧
        (∀ v ∈ out, ReflTransGen (fun x y => y ∈ succ x) root v) ∧ out.Nodup := by
  intro fuel
  induction fuel with
  | zero => intro _ _ h; omega
  | succ fuel ih =>
    intro queue seen hfuel hq hclosed hreach hnd
    cases queue with
    | nil =>
      refine ⟨fun _ h => h, fun v hv b hb => ?_, hreach, hnd⟩
      rcases hclosed v hv with h | h
      · simp at h
      · exact h b hb
    | cons a queue =>
      obtain ⟨fresh, hpush, hfresh, hall, hcount, hnd'⟩ :=
        pushFresh_spec (succ a) (hn a) seen queue
      rw [collectFuel, hpush]
      have ha : a ∈ seen := hq a (by simp)
      have hq' : ∀ q ∈ queue ++ fresh, q ∈ seen ++ fresh := by
        intro q h
        rcases List.mem_append.mp h with h | h
        · exact List.mem_append_left _ (hq q (by simp [h]))
        · exact List.mem_append_right _ h
      have hclosed' : ∀ v ∈ seen ++ fresh, v ∈ queue ++ fresh ∨ ∀ b ∈ succ v, b ∈ seen ++ fresh := by
        intro v hv
        rcases List.mem_append.mp hv with hv | hv
        · by_cases hva : v = a
          · exact .inr fun b hb => hall b (hva ▸ hb)
          · rcases hclosed v hv with h | h
            · have : v ∈ queue := by simpa [hva] using h
              exact .inl (List.mem_append_left _ this)
            · exact .inr fun b hb => List.mem_append_left _ (h b hb)
        · exact .inl (List.mem_append_right _ hv)
      have hreach' : ∀ v ∈ seen ++ fresh, ReflTransGen (fun x y => y ∈ succ x) root v := by
        intro v hv
        rcases List.mem_append.mp hv with hv | hv
        · exact hreach v hv
        · exact (hreach a ha).tail (hfresh v hv)
      obtain ⟨h1, h2, h3, h4⟩ := ih (queue ++ fresh) (seen ++ fresh)
        (by simp only [List.length_append, List.length_cons] at hfuel ⊢; omega)
        hq' hclosed' hreach' (hnd' hnd)
      exact ⟨fun v hv => h1 v (List.mem_append_left _ hv), h2, h3, h4⟩

theorem collect_spec {nodes : List α} (hn : ∀ a, ∀ b ∈ succ a, b ∈ nodes) (root : α) :
    root ∈ collect succ nodes root ∧ (∀ v ∈ collect succ nodes root, ∀ b ∈ succ v, b ∈ collect succ nodes root) ∧
      (∀ v ∈ collect succ nodes root, ReflTransGen (fun x y => y ∈ succ x) root v) ∧
      (collect succ nodes root).Nodup := by
  have hlen : unseen nodes [root] ≤ nodes.length := List.length_filter_le _ _
  obtain ⟨h1, hrest⟩ := collectFuel_spec hn root (nodes.length + 2) [root] [root]
    (by simp only [List.length_cons, List.length_nil]; omega) (by simp)
    (fun v hv => .inl hv) (fun v hv => by rw [List.mem_singleton.mp hv]) (by simp)
  exact ⟨h1 root (by simp), hrest⟩

/-- **The collected nodes are the reachable ones.** -/
theorem mem_collect_iff {nodes : List α} (hn : ∀ a, ∀ b ∈ succ a, b ∈ nodes) {root x : α} :
    x ∈ collect succ nodes root ↔ ReflTransGen (fun x y => y ∈ succ x) root x := by
  obtain ⟨h1, h2, h3, -⟩ := collect_spec hn root
  refine ⟨h3 x, fun h => ?_⟩
  induction h with
  | refl => exact h1
  | tail _ hbc ih => exact h2 _ ih _ hbc

end Collect

/-! ## Parent chains -/

section Parents

variable {up up' : α → Option α}

/-- `Up up k x y`: `y` is the `k`-th parent of `x`. -/
inductive Up (up : α → Option α) : Nat → α → α → Prop
  | here (x : α) : Up up 0 x x
  | step {k : Nat} {x p y : α} : up x = some p → Up up k p y → Up up (k + 1) x y

/-- `Depth up x d`: the parents of `x` end at a root after `d` steps. -/
inductive Depth (up : α → Option α) : α → Nat → Prop
  | root {x : α} : up x = none → Depth up x 0
  | child {x p : α} {d : Nat} : up x = some p → Depth up p d → Depth up x (d + 1)

theorem Depth.unique {x : α} {d e : Nat} (h : Depth up x d) (h' : Depth up x e) : d = e := by
  induction h generalizing e with
  | root hx =>
    cases h' with
    | root => rfl
    | child hp => rw [hx] at hp; cases hp
  | child hp _ ih =>
    cases h' with
    | root hx => rw [hx] at hp; cases hp
    | child hp' hd =>
      rw [hp] at hp'
      cases hp'
      rw [ih hd]

/-- The depth of a `k`-th parent. -/
theorem Depth.of_up {k : Nat} {x y : α} (hu : Up up k x y) {d : Nat} (h : Depth up x d) :
    ∃ e, Depth up y e ∧ d = e + k := by
  induction hu generalizing d with
  | here => exact ⟨d, h, rfl⟩
  | step hp _ ih =>
    cases h with
    | root hx => rw [hx] at hp; cases hp
    | child hp' hd =>
      rw [hp] at hp'
      cases hp'
      obtain ⟨e, he, rfl⟩ := ih hd
      exact ⟨e, he, by omega⟩

theorem Up.depth {k : Nat} {x y : α} (hu : Up up k x y) {e : Nat} (h : Depth up y e) :
    Depth up x (e + k) := by
  induction hu with
  | here => exact h
  | step hp _ ih => exact .child hp (ih h)

theorem Up.trans {j k : Nat} {x y z : α} (h : Up up j x y) (h' : Up up k y z) :
    Up up (j + k) x z := by
  induction h with
  | here => simpa using h'
  | step hp _ ih =>
    rw [Nat.add_right_comm]
    exact .step hp (ih h')

theorem Up.of_transGen {x y : α} (h : TransGen (fun a b => up b = some a) y x) :
    ∃ k, Up up (k + 1) x y := by
  induction h with
  | single hp => exact ⟨0, .step hp (.here _)⟩
  | tail _ hp ih =>
    obtain ⟨k, hk⟩ := ih
    exact ⟨k + 1, .step hp hk⟩

/-- Chains that all end close no cycle. -/
theorem acyclic_of_depth (h : ∀ x, (up x).isSome → ∃ d, Depth up x d) :
    Acyclic fun a b => up b = some a := by
  intro a ha
  obtain ⟨k, hk⟩ := Up.of_transGen ha
  have hsome : (up a).isSome := by
    cases hk with
    | step hp _ => simp [hp]
  obtain ⟨d, hd⟩ := h a hsome
  obtain ⟨e, he, hde⟩ := hd.of_up hk
  have := hd.unique he
  omega

/-- Moving one node `t`: a chain of the old parents is a chain of the new ones or reaches `t`. -/
theorem Depth.reparent {t : α} (hup : ∀ x, x ≠ t → up' x = up x) {x : α} {d : Nat}
    (h : Depth up x d) : Depth up' x d ∨ ∃ k ≤ d, Up up' k x t := by
  induction h with
  | @root x hx =>
    by_cases hxt : x = t
    · exact .inr ⟨0, le_refl _, hxt ▸ .here x⟩
    · exact .inl (.root ((hup x hxt).trans hx))
  | @child x p d hp _ ih =>
    by_cases hxt : x = t
    · exact .inr ⟨0, Nat.zero_le _, hxt ▸ .here x⟩
    · rcases ih with ih | ⟨k, hkd, hk⟩
      · exact .inl (.child ((hup x hxt).trans hp) ih)
      · exact .inr ⟨k + 1, by omega, .step ((hup x hxt).trans hp) hk⟩

/-- Moving nodes up to an ancestor's parent only shortens chains. -/
theorem Depth.shorten {g : Option α} {t : α} (hg : up t = g)
    (hup : ∀ x, up' x = up x ∨ up' x = g ∧ ∃ k, Up up (k + 1) x t) :
    ∀ {d : Nat} {x : α}, Depth up x d → ∃ e ≤ d, Depth up' x e := by
  intro d
  induction d using Nat.strong_induction_on with
  | _ d ih =>
    intro x h
    rcases hup x with hx | ⟨hx, k, hk⟩
    · cases h with
      | root hroot => exact ⟨0, le_refl _, .root (hx.trans hroot)⟩
      | child hp hd =>
        obtain ⟨e, he, hde⟩ := ih _ (Nat.lt_succ_self _) hd
        exact ⟨e + 1, by omega, .child (hx.trans hp) hde⟩
    · obtain ⟨e, he, rfl⟩ := h.of_up hk
      cases he with
      | root hroot =>
        rw [hroot] at hg
        exact ⟨0, by omega, .root (hx.trans hg.symm)⟩
      | child hp hd =>
        obtain ⟨e', he', hde⟩ := ih _ (by omega) hd
        exact ⟨e' + 1, by omega, .child (hx.trans (hg.symm.trans hp)) hde⟩

end Parents

/-! ## Marking parent chains -/

section Mark

variable {up : α → Option α}

theorem Up.mono {up' : α → Option α} {k : Nat} {x y : α} (h : Up up k x y)
    (hsub : ∀ a b, up a = some b → up' a = some b) : Up up' k x y := by
  induction h with
  | here => exact .here _
  | step hp _ ih => exact .step (hsub _ _ hp) ih

/-- What is marked has its parents marked, but for the one the walk has come to. -/
def ClosedBut (up : α → Option α) (marked : List α) (cursor : Option α) : Prop :=
  ∀ a ∈ marked, ∀ b, up a = some b → b ∈ marked ∨ cursor = some b

theorem ClosedBut.mem_of_up {marked : List α} (h : ClosedBut up marked none) {k : Nat} {x y : α}
    (hup : Up up k x y) (hx : x ∈ marked) : y ∈ marked := by
  induction hup with
  | here => exact hx
  | step hp _ ih => exact ih ((h _ hx _ hp).resolve_right nofun)

variable [DecidableEq α]

/-- Mark a node and those above it, up to one that is marked already. -/
def markUp (up : α → Option α) : Nat → List α → Option α → List α
  | 0, marked, _ => marked
  | _ + 1, marked, none => marked
  | fuel + 1, marked, some a =>
    if a ∈ marked then marked else markUp up fuel (a :: marked) (up a)

theorem unseen_cons {nodes seen : List α} {b : α} :
    unseen nodes (b :: seen) = unseen nodes (seen ++ [b]) := by
  rw [unseen, unseen]
  congr 1
  refine List.filter_congr fun x _ => ?_
  rw [decide_eq_decide, List.mem_cons, List.mem_append, List.mem_singleton, or_comm]

/-- A walk with fuel for every unmarked node that has a parent marks the whole chain. -/
theorem markUp_spec {nodes : List α} (hnodes : ∀ a b, up a = some b → a ∈ nodes) {fuel : Nat}
    {marked : List α} {cursor : Option α} (hfuel : cursor = none ∨ unseen nodes marked + 2 ≤ fuel)
    (h : ClosedBut up marked cursor) :
    marked ⊆ markUp up fuel marked cursor ∧ (∀ a, cursor = some a → a ∈ markUp up fuel marked cursor) ∧
      ClosedBut up (markUp up fuel marked cursor) none := by
  induction fuel generalizing marked cursor with
  | zero =>
    obtain rfl : cursor = none := hfuel.resolve_right (by omega)
    exact ⟨fun a ha => ha, nofun, h⟩
  | succ fuel ih =>
    cases cursor with
    | none => exact ⟨fun a ha => ha, nofun, h⟩
    | some a =>
      rw [markUp]
      split
      · rename_i ha
        refine ⟨fun b hb => hb, fun b hb => Option.some.inj hb ▸ ha, fun b hb c hc => ?_⟩
        exact .inl ((h b hb c hc).elim id fun heq => Option.some.inj heq ▸ ha)
      · rename_i ha
        have hnext : ClosedBut up (a :: marked) (up a) := by
          intro b hb c hc
          rcases List.mem_cons.mp hb with rfl | hb
          · exact .inr hc
          · refine .inl ((h b hb c hc).elim (List.mem_cons_of_mem a) fun heq => ?_)
            exact Option.some.inj heq ▸ List.mem_cons_self
        have hrest : up a = none ∨ unseen nodes (a :: marked) + 2 ≤ fuel := by
          cases hup : up a with
          | none => exact .inl rfl
          | some b =>
            have hlt := unseen_snoc_lt ha (hnodes a b hup)
            rw [← unseen_cons] at hlt
            exact .inr (by have := hfuel.resolve_left nofun; omega)
        obtain ⟨hsub, -, hclosed⟩ := ih hrest hnext
        exact ⟨fun b hb => hsub (List.mem_cons_of_mem a hb),
          fun b hb => Option.some.inj hb ▸ hsub List.mem_cons_self, hclosed⟩

/-- What a walk marks lies on its chain. -/
theorem mem_markUp {fuel : Nat} {marked : List α} {cursor : Option α} {x : α} (h : x ∈ markUp up fuel marked cursor) :
    x ∈ marked ∨ ∃ a, cursor = some a ∧ ∃ k, Up up k a x := by
  induction fuel generalizing marked cursor with
  | zero => exact .inl h
  | succ fuel ih =>
    cases cursor with
    | none => exact .inl h
    | some a =>
      rw [markUp] at h
      split at h
      · exact .inl h
      · rcases ih h with hmarked | ⟨b, hup, k, hk⟩
        · rcases List.mem_cons.mp hmarked with rfl | hmarked
          · exact .inr ⟨x, rfl, 0, .here x⟩
          · exact .inl hmarked
        · exact .inr ⟨a, rfl, k + 1, .step hup hk⟩

/-- The chains above a list of nodes. -/
def markAll (up : α → Option α) (fuel : Nat) (starts marked : List α) : List α :=
  starts.foldl (fun marked a => markUp up fuel marked (some a)) marked

/-- Every start is marked, and what is above a marked node is. -/
theorem markAll_spec {nodes : List α} (hnodes : ∀ a b, up a = some b → a ∈ nodes) {fuel : Nat}
    (hfuel : nodes.length + 2 ≤ fuel) {starts marked : List α} (h : ClosedBut up marked none) :
    marked ⊆ markAll up fuel starts marked ∧ starts ⊆ markAll up fuel starts marked ∧
      ClosedBut up (markAll up fuel starts marked) none := by
  induction starts generalizing marked with
  | nil => exact ⟨fun a ha => ha, nofun, h⟩
  | cons a starts ih =>
    have hlen : unseen nodes marked ≤ nodes.length := List.length_filter_le _ _
    have hstart : ClosedBut up marked (some a) := fun b hb c hc =>
      .inl ((h b hb c hc).resolve_right nofun)
    obtain ⟨hsub, ha, hclosed⟩ := markUp_spec hnodes (.inr (le_trans (by omega) hfuel)) hstart
    obtain ⟨hsub', hstarts, hclosed'⟩ := ih hclosed
    rw [markAll, List.foldl_cons]
    exact ⟨fun b hb => hsub' (hsub hb),
      List.cons_subset.mpr ⟨hsub' (ha a rfl), hstarts⟩, hclosed'⟩

/-- What is marked is above a start. -/
theorem mem_markAll {fuel : Nat} {starts marked : List α} {x : α} (h : x ∈ markAll up fuel starts marked) :
    x ∈ marked ∨ ∃ a ∈ starts, ∃ k, Up up k a x := by
  induction starts generalizing marked with
  | nil => exact .inl h
  | cons a starts ih =>
    rcases ih h with hmarked | ⟨b, hb, hk⟩
    · rcases mem_markUp hmarked with hmarked | ⟨b, hcursor, hk⟩
      · exact .inl hmarked
      · exact .inr ⟨a, List.mem_cons_self, Option.some.inj hcursor ▸ hk⟩
    · exact .inr ⟨b, List.mem_cons_of_mem a hb, hk⟩

end Mark

end Nanna.Lib
