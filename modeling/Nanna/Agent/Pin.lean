import Nanna.Agent.Cut

/-!
# Cuts around the pin

A list of messages splits at the pinned one (`Split`). Every cut takes messages before the pinned
one, oldest first, and after it only when none is left before it; what it rewrites keeps its tool
calls and results (`links`). `Kept` is this relation between the contexts before and after, and it
composes, so a loop of removals and a run of cuts are handled by one lemma for each operation.

The proof starts with `removeMessage` on either side of the pin. The loops take one message at a
time (`kept_removeMessage`); the other cuts take the first of the positions but for the pinned one
(`unpinned_eq`), highest first (`split_removeAll`).
-/

namespace Nanna.Agent

open Nanna.Lib

/-! ## Calls and results -/

/-- What ties a block to another one. -/
inductive Link
  | call (id : Text)
  | result (id : Text)
  | other
  deriving DecidableEq

def ContentBlock.link : ContentBlock → Link
  | .toolUse id _ _ => .call id
  | .toolResult id _ _ => .result id
  | _ => .other

def Message.links (msg : Message) : List Link := msg.content.map (·.link)

namespace AgentContext

/-! ## Splitting at the pin -/

/-- The pinned message with those before and after it. -/
structure Split (ctx : AgentContext) (pre : List Message) (msg : Message) (post : List Message) :
    Prop where
  messages : ctx.messages = pre ++ msg :: post
  pinned : ctx.pinnedIndex = pre.length

/-- The pin is set on a message that is there, or unset with a first message to fall back on. -/
def PinStands (ctx : AgentContext) : Prop := ctx.pinnedRequest.getD 0 < ctx.messages.length

instance (ctx : AgentContext) : Decidable ctx.PinStands := Nat.decLt _ _

variable {ctx ctx' ctx'' : AgentContext} {pre post : List Message} {msg : Message}
  {env : ContextEnv}

/-- A pin that stands needs no clamping. -/
theorem PinStands.pinnedIndex (h : ctx.PinStands) :
    ctx.pinnedIndex = ctx.pinnedRequest.getD 0 := by
  unfold PinStands at h
  cases hmessages : ctx.messages with
  | nil =>
    rw [hmessages] at h
    exact absurd h (Nat.not_lt_zero _)
  | cons msg msgs =>
    have hsome : ¬ (msg :: msgs).isEmpty = true := Bool.false_ne_true
    rw [AgentContext.pinnedIndex, hmessages, if_neg hsome, ← hmessages]
    omega

theorem exists_split (h : ctx.messages ≠ []) : ∃ pre msg post, ctx.Split pre msg post := by
  have hlength : 0 < ctx.messages.length := List.length_pos_iff.mpr h
  have hindex : ctx.pinnedIndex < ctx.messages.length := by
    rw [pinnedIndex, if_neg (by simpa using h)]
    omega
  refine ⟨ctx.messages.take ctx.pinnedIndex, ctx.messages[ctx.pinnedIndex],
    ctx.messages.drop (ctx.pinnedIndex + 1), ?_, ?_⟩
  · rw [← List.drop_eq_getElem_cons hindex, List.take_append_drop]
  · rw [List.length_take]
    omega

namespace Split

theorem ne_nil (h : ctx.Split pre msg post) : ctx.messages ≠ [] := by
  rw [h.messages]
  exact List.append_ne_nil_of_right_ne_nil _ (List.cons_ne_nil _ _)

theorem length (h : ctx.Split pre msg post) :
    ctx.messages.length = pre.length + 1 + post.length := by
  rw [h.messages, List.length_append, List.length_cons]
  omega

theorem live (h : ctx.Split pre msg post) : ctx.live = some msg := by
  rw [AgentContext.live, h.messages, h.pinned, List.getElem?_append_right (Nat.le_refl _),
    Nat.sub_self]
  rfl

/-- The pin in terms of the field. -/
theorem pinnedIndex_eq (h : ctx.Split pre msg post) :
    min (ctx.pinnedRequest.getD 0) (ctx.messages.length - 1) = pre.length := by
  rw [← h.pinned, pinnedIndex, if_neg (by simpa using h.ne_nil)]

theorem of_pinnedIndex (hmessages : ctx.messages = pre ++ msg :: post)
    (hpinned : min (ctx.pinnedRequest.getD 0) (pre.length + post.length) = pre.length) :
    ctx.Split pre msg post := by
  refine ⟨hmessages, ?_⟩
  have hlength : ctx.messages.length - 1 = pre.length + post.length := by
    rw [hmessages, List.length_append, List.length_cons]
    omega
  rw [pinnedIndex, if_neg (by simp [hmessages]), hlength, hpinned]

end Split

/-! ## One removal -/

theorem split_removeMessage_before {i : Nat} (h : ctx.Split pre msg post) (hi : i < pre.length) :
    (ctx.removeMessage i).Split (pre.eraseIdx i) msg post := by
  have hlength := h.length
  have hin : ¬ ctx.messages.length ≤ i := by omega
  have herase : (pre.eraseIdx i).length = pre.length - 1 := by
    rw [List.length_eraseIdx, if_pos hi]
  have hpinned := h.pinnedIndex_eq
  rw [removeMessage, if_neg hin]
  refine .of_pinnedIndex ?_ ?_
  · show ctx.messages.eraseIdx i = _
    rw [h.messages, List.eraseIdx_append_of_lt_length hi]
  · show min ((ctx.pinnedRequest.map _).getD 0) _ = _
    cases hrequest : ctx.pinnedRequest with
    | none =>
      rw [hrequest, Option.getD_none] at hpinned
      omega
    | some pinned =>
      rw [hrequest, Option.getD_some] at hpinned
      have hbefore : i < pinned := by omega
      rw [Option.map_some, Option.getD_some, if_pos hbefore]
      omega

theorem split_removeMessage_after {i : Nat} (h : ctx.Split pre msg post) (hi : i < post.length) :
    (ctx.removeMessage (pre.length + 1 + i)).Split pre msg (post.eraseIdx i) := by
  have hlength := h.length
  have hin : ¬ ctx.messages.length ≤ pre.length + 1 + i := by omega
  have herase : (post.eraseIdx i).length = post.length - 1 := by
    rw [List.length_eraseIdx, if_pos hi]
  have hpinned := h.pinnedIndex_eq
  have hoffset : pre.length + 1 + i - pre.length = i + 1 := by omega
  rw [removeMessage, if_neg hin]
  refine .of_pinnedIndex ?_ ?_
  · show ctx.messages.eraseIdx _ = _
    rw [h.messages, List.eraseIdx_append_of_length_le (by omega), hoffset, List.eraseIdx_cons_succ]
  · show min ((ctx.pinnedRequest.map _).getD 0) _ = _
    cases hrequest : ctx.pinnedRequest with
    | none =>
      rw [hrequest, Option.getD_none] at hpinned
      rw [Option.map_none, Option.getD_none]
      omega
    | some pinned =>
      rw [hrequest, Option.getD_some] at hpinned
      have hafter : ¬ pre.length + 1 + i < pinned := by omega
      rw [Option.map_some, Option.getD_some, if_neg hafter]
      omega

theorem pinStands_removeMessage {i : Nat} (h : ctx.PinStands) (hi : i ≠ ctx.pinnedIndex) :
    (ctx.removeMessage i).PinStands := by
  rw [h.pinnedIndex] at hi
  unfold PinStands at h
  unfold removeMessage
  split
  · exact h
  · rename_i hin
    show (ctx.pinnedRequest.map _).getD 0 < (ctx.messages.eraseIdx i).length
    rw [List.length_eraseIdx, if_pos (Nat.lt_of_not_le hin)]
    cases hrequest : ctx.pinnedRequest with
    | none =>
      rw [hrequest, Option.getD_none] at h hi
      rw [Option.map_none, Option.getD_none]
      omega
    | some pinned =>
      rw [hrequest, Option.getD_some] at h hi
      rw [Option.map_some, Option.getD_some]
      split
      · omega
      · omega

/-! ## The cut relation -/

/-- What a cut leaves of the context before it: the pinned message stands where it stood among the
messages that are left, which are the last ones before it and, once these are gone, the last ones
after it. -/
structure Kept (ctx ctx' : AgentContext) : Prop where
  empty : ctx.messages = [] → ctx'.messages = []
  stands : ctx.PinStands → ctx'.PinStands
  split : ∀ {pre msg post}, ctx.Split pre msg post → ∃ pre' post' a b, ctx'.Split pre' msg post' ∧
    pre'.map Message.links = (pre.drop a).map Message.links ∧
    post'.map Message.links = (post.drop b).map Message.links ∧ (pre' = [] ∨ b = 0)

namespace Kept

theorem refl (ctx : AgentContext) : Kept ctx ctx :=
  ⟨id, id, fun {pre _ post} h => ⟨pre, post, 0, 0, h, rfl, rfl, .inr rfl⟩⟩

theorem trans (h : Kept ctx ctx') (h' : Kept ctx' ctx'') : Kept ctx ctx'' := by
  refine ⟨h'.empty ∘ h.empty, h'.stands ∘ h.stands, fun {pre msg post} hsplit => ?_⟩
  obtain ⟨pre', post', a, b, hsplit', hpre, hpost, hside⟩ := h.split hsplit
  obtain ⟨pre'', post'', a', b', hsplit'', hpre', hpost', hside'⟩ := h'.split hsplit'
  refine ⟨pre'', post'', a + a', b + b', hsplit'', ?_, ?_, ?_⟩
  · rw [hpre', List.map_drop, hpre, ← List.map_drop, List.drop_drop]
  · rw [hpost', List.map_drop, hpost, ← List.map_drop, List.drop_drop]
  · rcases hside' with hnil | hzero
    · exact .inl hnil
    · rcases hside with hnil | hzero'
      · left
        rw [hnil, List.drop_nil, List.map_nil, List.map_eq_nil_iff] at hpre'
        exact hpre'
      · right
        omega

/-- The messages and the pin decide. -/
theorem of_eq (hmessages : ctx'.messages = ctx.messages)
    (hpinned : ctx'.pinnedRequest = ctx.pinnedRequest) : Kept ctx ctx' := by
  refine ⟨fun h => hmessages.trans h, fun h => ?_, fun {pre _ post} h => ?_⟩
  · unfold PinStands
    rw [hmessages, hpinned]
    exact h
  · refine ⟨pre, post, 0, 0, ⟨hmessages.trans h.messages, ?_⟩, rfl, rfl, .inr rfl⟩
    rw [pinnedIndex, hmessages, hpinned]
    exact h.pinned

/-- A cut keeps the pinned message. -/
theorem live (h : Kept ctx ctx') : ctx'.live = ctx.live := by
  by_cases hmessages : ctx.messages = []
  · rw [AgentContext.live, AgentContext.live, hmessages, h.empty hmessages]
    rfl
  · obtain ⟨pre, msg, post, hsplit⟩ := exists_split hmessages
    obtain ⟨pre', post', a, b, hsplit', -⟩ := h.split hsplit
    rw [hsplit.live, hsplit'.live]

end Kept

/-! ## Removals one at a time -/

/-- The oldest removable message is the first one, or the second one behind the pinned one. -/
theorem oldestRemovable_eq_some {keepTail victim : Nat}
    (h : ctx.oldestRemovable keepTail = some victim) :
    victim ≠ ctx.pinnedIndex ∧ victim < ctx.messages.length ∧
      (victim = 0 ∨ victim = 1 ∧ ctx.pinnedIndex = 0) := by
  obtain ⟨hvictim, hmem, hfirst⟩ := List.find?_range_eq_some.mp h
  have hne : victim ≠ ctx.pinnedIndex := of_decide_eq_true hvictim
  have hearlier : ∀ j < victim, j = ctx.pinnedIndex := by
    intro j hj
    have hj := hfirst j hj
    simpa using hj
  rw [List.mem_range] at hmem
  refine ⟨hne, by omega, ?_⟩
  rcases Nat.lt_or_ge victim 2 with hlt | hge
  · rcases Nat.eq_zero_or_pos victim with hzero | hpos
    · exact .inl hzero
    · have hzero := hearlier 0 hpos
      exact .inr ⟨by omega, hzero.symm⟩
  · have hzero := hearlier 0 (by omega)
    have hone := hearlier 1 (by omega)
    omega

theorem oldestRemovable_eq_none {keepTail : Nat} (h : ctx.oldestRemovable keepTail = none) :
    ctx.messages.length ≤ keepTail + 1 := by
  by_contra hlength
  have hnone : ∀ i, i < ctx.messages.length - keepTail → i = ctx.pinnedIndex := by
    intro i hi
    have hi := List.find?_eq_none.mp h i (List.mem_range.mpr hi)
    simpa using hi
  have hzero := hnone 0 (by omega)
  have hone := hnone 1 (by omega)
  omega

theorem kept_removeMessage {keepTail victim : Nat}
    (h : ctx.oldestRemovable keepTail = some victim) : Kept ctx (ctx.removeMessage victim) := by
  obtain ⟨hne, hlt, hfirst⟩ := oldestRemovable_eq_some h
  refine ⟨fun hempty => ?_, fun hstands => pinStands_removeMessage hstands hne,
    fun {pre msg post} hsplit => ?_⟩
  · rw [hempty] at hlt
    exact absurd hlt (Nat.not_lt_zero _)
  · have hlength := hsplit.length
    have hpinned := hsplit.pinned
    rcases hfirst with rfl | ⟨rfl, hzero⟩
    · cases pre with
      | nil => exact absurd hpinned.symm hne
      | cons first pre =>
        exact ⟨pre, post, 1, 0, split_removeMessage_before hsplit (Nat.succ_pos _), rfl, rfl,
          .inr rfl⟩
    · have hnil : pre = [] := List.length_eq_zero_iff.mp (hpinned.symm.trans hzero)
      subst hnil
      cases post with
      | nil => exact absurd hlt (by simp [hsplit.messages])
      | cons second post =>
        exact ⟨[], post, 0, 1, split_removeMessage_after hsplit (Nat.succ_pos _), rfl, rfl,
          .inl rfl⟩

theorem removeMessage_length {i : Nat} (h : i < ctx.messages.length) :
    (ctx.removeMessage i).messages.length = ctx.messages.length - 1 := by
  rw [removeMessage, if_neg (Nat.not_le_of_lt h), List.length_eraseIdx, if_pos h]

/-! ## Removals highest first -/

theorem removeAll_append (xs ys : List Nat) :
    ctx.removeAll (xs ++ ys) = (ctx.removeAll ys).removeAll xs := by
  rw [removeAll, List.reverse_append, List.foldl_append]
  rfl

theorem drop_eraseIdx {l : List Message} {n : Nat} (h : n < l.length) :
    (l.eraseIdx n).drop n = l.drop (n + 1) := by
  have htake : (l.take n).length = n := by
    rw [List.length_take]
    omega
  rw [List.eraseIdx_eq_take_drop_succ, List.drop_append, htake, Nat.sub_self,
    List.drop_of_length_le (Nat.le_of_eq htake)]
  rfl

theorem split_removeAll_before {a : Nat} (h : ctx.Split pre msg post) (ha : a ≤ pre.length) :
    (ctx.removeAll (List.range a)).Split (pre.drop a) msg post ∧
      (ctx.PinStands → (ctx.removeAll (List.range a)).PinStands) := by
  induction a generalizing ctx pre with
  | zero => exact ⟨h, id⟩
  | succ a ih =>
    have hstep := split_removeMessage_before h ha
    have hne : a ≠ ctx.pinnedIndex := by
      rw [h.pinned]
      omega
    have hlength : (pre.eraseIdx a).length = pre.length - 1 := List.length_eraseIdx_of_lt ha
    obtain ⟨hsplit, hstands⟩ := ih hstep (by omega)
    rw [List.range_succ, removeAll_append, ← drop_eraseIdx ha]
    exact ⟨hsplit, fun h => hstands (pinStands_removeMessage h hne)⟩

theorem split_removeAll_after (b : Nat) (h : ctx.Split pre msg post) (hb : b ≤ post.length) :
    (ctx.removeAll (List.range' (pre.length + 1) b)).Split pre msg (post.drop b) ∧
      (ctx.PinStands → (ctx.removeAll (List.range' (pre.length + 1) b)).PinStands) := by
  induction b generalizing ctx post with
  | zero => exact ⟨h, id⟩
  | succ b ih =>
    have hstep := split_removeMessage_after h hb
    have hne : pre.length + 1 + b ≠ ctx.pinnedIndex := by
      rw [h.pinned]
      omega
    have hlength : (post.eraseIdx b).length = post.length - 1 := List.length_eraseIdx_of_lt hb
    obtain ⟨hsplit, hstands⟩ := ih hstep (by omega)
    rw [List.range'_1_concat, removeAll_append, ← drop_eraseIdx hb]
    exact ⟨hsplit, fun h => hstands (pinStands_removeMessage h hne)⟩

/-- The positions but for the pinned one are those before it and those after it. -/
theorem filter_ne_range (p cutoff : Nat) :
    (List.range cutoff).filter (· ≠ p) =
      List.range (min p cutoff) ++ List.range' (p + 1) (cutoff - p - 1) := by
  induction cutoff with
  | zero => simp
  | succ n ih =>
    rw [List.range_succ, List.filter_append, ih]
    rcases Nat.lt_trichotomy n p with hlt | rfl | hgt
    · have hmin : min p (n + 1) = min p n + 1 := by omega
      have hmin' : min p n = n := by omega
      have hzero : n + 1 - p - 1 = 0 := by omega
      have hzero' : n - p - 1 = 0 := by omega
      have hne : n ≠ p := Nat.ne_of_lt hlt
      rw [hmin, hmin', hzero, hzero', List.range_succ]
      simp [hne]
    · simp
    · have hmin : min p (n + 1) = min p n := by omega
      have hcount : n + 1 - p - 1 = n - p - 1 + 1 := by omega
      have hlast : p + 1 + (n - p - 1) = n := by omega
      have hne : n ≠ p := Nat.ne_of_gt hgt
      rw [hmin, hcount, List.range'_1_concat, hlast]
      simp [hne]

theorem take_range' (start n k : Nat) :
    (List.range' start n).take k = List.range' start (min k n) := by
  rcases Nat.le_total n k with hle | hle
  · rw [List.take_range'_of_length_le hle, Nat.min_eq_right hle]
  · rw [List.take_range'_of_length_ge hle, Nat.min_eq_left hle]

variable (ctx) in
/-- The first of these positions. -/
theorem take_unpinned (cutoff k : Nat) :
    ∃ a b, (ctx.unpinned cutoff).take k =
        List.range a ++ List.range' (ctx.pinnedIndex + 1) b ∧
      a ≤ ctx.pinnedIndex ∧ a ≤ cutoff ∧ ctx.pinnedIndex + 1 + b ≤ max cutoff (ctx.pinnedIndex + 1) ∧
      (a = ctx.pinnedIndex ∨ b = 0) := by
  refine ⟨min k (min ctx.pinnedIndex cutoff),
    min (k - min ctx.pinnedIndex cutoff) (cutoff - ctx.pinnedIndex - 1), ?_, by omega, by omega,
    by omega, by omega⟩
  rw [unpinned, filter_ne_range, List.take_append, List.take_range, List.length_range,
    take_range']

theorem filterMap_getElem? {l : List Message} {start n : Nat} :
    (List.range' start n).filterMap (fun i => l[i]?) = (l.drop start).take n := by
  induction n generalizing start with
  | zero => rfl
  | succ n ih =>
    rw [List.range'_succ]
    rcases Nat.lt_or_ge start l.length with hlt | hge
    · rw [List.filterMap_cons_some (List.getElem?_eq_getElem hlt), ih,
        List.drop_eq_getElem_cons hlt, List.take_succ_cons]
    · rw [List.filterMap_cons_none (List.getElem?_eq_none hge), ih, List.drop_of_length_le hge,
        List.drop_of_length_le (Nat.le_succ_of_le hge), List.take_nil, List.take_nil]

/-- Removing the first of these positions is a cut. -/
theorem split_removeAll {cutoff k : Nat} (h : ctx.Split pre msg post)
    (hcutoff : cutoff ≤ ctx.messages.length) :
    ∃ a b, ((ctx.unpinned cutoff).take k).filterMap (fun i => ctx.messages[i]?) =
        pre.take a ++ post.take b ∧
      (ctx.removeAll ((ctx.unpinned cutoff).take k)).Split (pre.drop a) msg (post.drop b) ∧
      (ctx.PinStands → (ctx.removeAll ((ctx.unpinned cutoff).take k)).PinStands) ∧
      (pre.drop a = [] ∨ b = 0) := by
  obtain ⟨a, b, hvictims, ha, hacut, hb, hside⟩ := take_unpinned ctx cutoff k
  have hlength := h.length
  have hpinned := h.pinned
  rw [hpinned] at hvictims ha hb hside
  obtain ⟨hpost, hstands⟩ := split_removeAll_after b h (by omega)
  obtain ⟨hsplit, hstands'⟩ := split_removeAll_before hpost ha
  refine ⟨a, b, ?_, ?_, ?_, ?_⟩
  · have hbefore : (pre ++ msg :: post).take a = pre.take a := by
      rw [List.take_append_of_le_length ha]
    have hafter : (pre ++ msg :: post).drop (pre.length + 1) = post := by
      rw [List.append_cons, List.drop_left' (by simp)]
    rw [hvictims, List.filterMap_append, List.range_eq_range', filterMap_getElem?,
      filterMap_getElem?, List.drop_zero, h.messages, hbefore, hafter]
  · rw [hvictims, removeAll_append]
    exact hsplit
  · rw [hvictims, removeAll_append]
    exact hstands' ∘ hstands
  · rcases hside with rfl | hzero
    · exact .inl (List.drop_of_length_le (Nat.le_refl _))
    · exact .inr hzero

theorem kept_removeAll {cutoff k : Nat} (hcutoff : cutoff ≤ ctx.messages.length) :
    Kept ctx (ctx.removeAll ((ctx.unpinned cutoff).take k)) := by
  by_cases hmessages : ctx.messages = []
  · have hnone : (ctx.unpinned cutoff).take k = [] := by
      rw [hmessages, List.length_nil] at hcutoff
      rw [unpinned, Nat.le_zero.mp hcutoff, List.range_zero, List.filter_nil, List.take_nil]
    rw [hnone]
    exact .refl ctx
  · obtain ⟨pre, msg, post, hsplit⟩ := exists_split hmessages
    obtain ⟨-, -, -, -, hstands, -⟩ := split_removeAll (k := k) hsplit hcutoff
    refine ⟨fun h => absurd h hmessages, hstands, fun {pre msg post} h => ?_⟩
    obtain ⟨a, b, -, hsplit', -, hside⟩ := split_removeAll (k := k) h hcutoff
    exact ⟨pre.drop a, post.drop b, a, b, hsplit', rfl, rfl, hside⟩

/-- The same after a change that is not about messages. -/
theorem kept_removeAll_of_eq {cutoff k : Nat} {victims : List Nat}
    (hvictims : victims = (ctx.unpinned cutoff).take k) (hmessages : ctx'.messages = ctx.messages)
    (hpinned : ctx'.pinnedRequest = ctx.pinnedRequest) (hcutoff : cutoff ≤ ctx.messages.length) :
    Kept ctx (ctx'.removeAll victims) := by
  have hunpinned : ctx.unpinned cutoff = ctx'.unpinned cutoff := by
    unfold unpinned pinnedIndex
    rw [hmessages, hpinned]
  rw [hvictims, hunpinned]
  rw [← hmessages] at hcutoff
  exact Kept.trans (.of_eq hmessages hpinned) (kept_removeAll hcutoff)

/-! ## Every operation that cuts -/

theorem kept_trimRounds (rounds : Nat) : Kept ctx (trimRounds rounds ctx) := by
  induction rounds generalizing ctx with
  | zero => exact .refl ctx
  | succ rounds ih =>
    rw [trimRounds]
    split
    · split
      · exact .refl ctx
      · rename_i hvictim
        exact (kept_removeMessage hvictim).trans ih
    · exact .refl ctx

theorem kept_dropWhileOver {keepTail keep : Nat} (rounds removed : Nat) :
    Kept ctx (dropWhileOver env keepTail keep rounds (ctx, removed)).1 := by
  induction rounds generalizing ctx removed with
  | zero => exact .refl ctx
  | succ rounds ih =>
    rw [dropWhileOver]
    split
    · split
      · exact .refl ctx
      · rename_i hvictim
        exact (kept_removeMessage hvictim).trans (ih _)
    · exact .refl ctx

theorem kept_elidePreambleToFit : Kept ctx (ctx.elidePreambleToFit env).1 := by
  unfold elidePreambleToFit
  split
  · exact .refl ctx
  · split
    · exact .refl ctx
    · simp only
      split
      · exact .refl ctx
      · split
        · exact .refl ctx
        · exact .of_eq rfl rfl

theorem kept_dropToLimit : Kept ctx (ctx.dropToLimit env).1 := by
  rw [dropToLimit]
  refine Kept.trans ?_ (kept_dropWhileOver _ _)
  refine Kept.trans ?_ (kept_dropWhileOver _ _)
  split
  · exact kept_elidePreambleToFit
  · exact .refl ctx

theorem kept_dropOldest (keepRecent : Nat) : Kept ctx (ctx.dropOldest keepRecent).1 := by
  unfold dropOldest
  split
  · exact .refl ctx
  · simp only
    split
    · exact .refl ctx
    · exact kept_removeAll_of_eq List.take_length.symm rfl rfl (Nat.sub_le _ _)

theorem kept_replaceWithSummary (coveredMessages : Nat) (summary : Text) :
    Kept ctx (ctx.replaceWithSummary coveredMessages summary).1 := by
  unfold replaceWithSummary
  simp only
  split
  · exact kept_removeAll_of_eq rfl rfl rfl (Nat.sub_le _ _)
  · exact .refl ctx

/-- A cut that rewrites messages in place, but for the pinned one, and keeps their links. -/
theorem kept_of_map {f : Message × Nat → Message}
    (hmessages : ctx'.messages = ctx.messages.zipIdx.map f)
    (hpinned : ctx'.pinnedRequest = ctx.pinnedRequest)
    (hlinks : ∀ msg i, (f (msg, i)).links = msg.links)
    (hpin : ∀ msg, f (msg, ctx.pinnedIndex) = msg) : Kept ctx ctx' := by
  have hlength : ctx'.messages.length = ctx.messages.length := by
    rw [hmessages, List.length_map, List.length_zipIdx]
  refine ⟨fun h => ?_, fun h => ?_, fun {pre msg post} h => ?_⟩
  · rw [hmessages, h]
    rfl
  · unfold PinStands
    rw [hlength, hpinned]
    exact h
  · have hmap : ∀ (l : List Message) (k : Nat),
        ((l.zipIdx k).map f).map Message.links = l.map Message.links := by
      intro l k
      rw [List.map_map]
      calc (l.zipIdx k).map (Message.links ∘ f)
          = (l.zipIdx k).map (Message.links ∘ Prod.fst) :=
            List.map_congr_left fun entry _ => hlinks entry.1 entry.2
        _ = l.map Message.links := by rw [← List.map_map, List.zipIdx_map_fst]
    have hpinned' := h.pinnedIndex_eq
    rw [h.length] at hpinned'
    refine ⟨(pre.zipIdx).map f, (post.zipIdx (pre.length + 1)).map f, 0, 0,
      .of_pinnedIndex ?_ ?_, hmap _ _, hmap _ _, .inr rfl⟩
    · rw [hmessages, h.messages, List.zipIdx_append, List.zipIdx_cons, List.map_append,
        List.map_cons, Nat.zero_add, ← h.pinned, hpin]
    · rw [hpinned, List.length_map, List.length_map, List.length_zipIdx, List.length_zipIdx]
      omega

theorem link_compressBlock (minChars : Nat) (compressWith : Text → Option Text)
    (block : ContentBlock) : (compressBlock minChars compressWith block).link = block.link := by
  cases block with
  | toolResult id content isError =>
    rw [compressBlock]
    split
    · rfl
    · split
      · rfl
      · split
        · rfl
        · rfl
  | _ => rfl

theorem kept_compressOlderToolResults (keepRecent minChars : Nat)
    (compressWith : Nat → Nat → Text → Option Text) :
    Kept ctx (ctx.compressOlderToolResults keepRecent minChars compressWith) := by
  unfold compressOlderToolResults
  simp only
  split
  · exact .refl ctx
  · refine kept_of_map rfl rfl (fun msg i => ?_) (fun msg => ?_)
    · unfold compressMessage
      split
      · rw [Message.links, List.map_map]
        calc msg.content.zipIdx.map _
            = msg.content.zipIdx.map (ContentBlock.link ∘ Prod.fst) :=
              List.map_congr_left fun entry _ => link_compressBlock _ _ _
          _ = msg.links := by rw [← List.map_map, List.zipIdx_map_fst, Message.links]
      · rfl
    · rw [compressMessage, if_neg fun h => h.2 rfl]

theorem filter_zipIdx_eq (l : List Message) (k i : Nat) :
    ((l.zipIdx k).filter (·.2 = k + i)).map (·.1) = l[i]?.toList := by
  induction l generalizing k i with
  | nil => rfl
  | cons msg l ih =>
    rw [List.zipIdx_cons, List.filter_cons]
    cases i with
    | zero =>
      have hrest : (l.zipIdx (k + 1)).filter (·.2 = k + 0) = [] := by
        refine List.filter_eq_nil_iff.mpr fun entry hentry => ?_
        have hle := List.le_snd_of_mem_zipIdx hentry
        have hne : entry.2 ≠ k := by omega
        simpa using hne
      rw [if_pos (decide_eq_true (Nat.add_zero k).symm), hrest]
      rfl
    | succ i =>
      have hne : ¬ decide (k = k + (i + 1)) = true := by
        rw [decide_eq_true_eq]
        omega
      have hshift : k + (i + 1) = k + 1 + i := by omega
      rw [if_neg hne, hshift, ih, List.getElem?_cons_succ]

theorem countP_unpinned (cutoff : Nat) :
    (ctx.unpinned cutoff).countP (· < ctx.pinnedIndex) = min ctx.pinnedIndex cutoff := by
  rw [unpinned, filter_ne_range, List.countP_append]
  have hbefore : (List.range (min ctx.pinnedIndex cutoff)).countP (· < ctx.pinnedIndex) =
      (List.range (min ctx.pinnedIndex cutoff)).length := by
    refine List.countP_eq_length.mpr fun i hi => ?_
    have hi := List.mem_range.mp hi
    exact decide_eq_true (by omega)
  have hafter : (List.range' (ctx.pinnedIndex + 1) (cutoff - ctx.pinnedIndex - 1)).countP
      (· < ctx.pinnedIndex) = 0 := by
    refine List.countP_eq_zero.mpr fun i hi => ?_
    obtain ⟨hge, -⟩ := List.mem_range'_1.mp hi
    rw [decide_eq_true_eq]
    omega
  rw [hbefore, hafter, List.length_range, Nat.add_zero]

theorem getD_shift (request : Option Nat) (removed : Nat) :
    (request.map (· - removed)).getD 0 = request.getD 0 - removed := by
  cases request with
  | none => exact (Nat.zero_sub _).symm
  | some pinned => rfl

theorem kept_compress (keepRecent : Nat) (summary : Text) :
    Kept ctx (ctx.compress keepRecent summary).1 := by
  unfold compress
  split
  · exact .refl ctx
  · rename_i hrecent
    simp only [countP_unpinned]
    generalize hcutoff : ctx.messages.length - keepRecent = cutoff
    have hkept : ((ctx.messages.take cutoff).zipIdx.filter (·.2 = ctx.pinnedIndex)).map (·.1) =
        (ctx.messages.take cutoff)[ctx.pinnedIndex]?.toList := by
      have h := filter_zipIdx_eq (ctx.messages.take cutoff) 0 ctx.pinnedIndex
      rw [Nat.zero_add] at h
      exact h
    have hle : cutoff ≤ ctx.messages.length := by omega
    have hpos : 0 < cutoff := by omega
    rw [hkept]
    refine ⟨fun h => ?_, fun h => ?_, fun {pre msg post} h => ?_⟩
    · rw [h, List.length_nil] at hle
      exact absurd hpos (by omega)
    · have hpinned := h.pinnedIndex
      unfold PinStands at h
      show (ctx.pinnedRequest.map _).getD 0 < (_ ++ _ : List Message).length
      rw [getD_shift, List.length_append, List.length_drop, hpinned]
      rcases Nat.lt_or_ge (ctx.pinnedRequest.getD 0) cutoff with hlt | hge
      · have hget : (ctx.messages.take cutoff)[ctx.pinnedRequest.getD 0]? =
            some ctx.messages[ctx.pinnedRequest.getD 0] := by
          rw [List.getElem?_take_of_lt hlt, List.getElem?_eq_getElem h]
        rw [hget]
        show _ < 1 + _
        omega
      · omega
    · have hlength := h.length
      have hpin := h.pinnedIndex_eq
      rw [h.pinned]
      rcases Nat.lt_or_ge pre.length cutoff with hlt | hge
      · -- the pinned message is among the old ones, and the only one of them left
        have hget : (ctx.messages.take cutoff)[pre.length]? = some msg := by
          have hlive := h.live
          rw [AgentContext.live, h.pinned] at hlive
          rw [List.getElem?_take_of_lt hlt, hlive]
        refine ⟨[], post.drop (cutoff - pre.length - 1), pre.length, cutoff - pre.length - 1,
          .of_pinnedIndex ?_ ?_, by rw [List.drop_length], rfl, .inl rfl⟩
        · have hdrop : ctx.messages.drop cutoff = post.drop (cutoff - pre.length - 1) := by
            have hsplit : cutoff = (pre ++ [msg]).length + (cutoff - pre.length - 1) := by
              simp
              omega
            rw [h.messages, List.append_cons]
            nth_rewrite 1 [hsplit]
            rw [List.drop_length_add_append]
          show _ ++ _ = _
          rw [hget, hdrop]
          rfl
        · show min ((ctx.pinnedRequest.map _).getD 0) _ = _
          rw [getD_shift, List.length_nil, List.length_drop]
          omega
      · have hget : (ctx.messages.take cutoff)[pre.length]? = none := by
          rw [List.getElem?_eq_none]
          rw [List.length_take]
          omega
        refine ⟨pre.drop cutoff, post, cutoff, 0, .of_pinnedIndex ?_ ?_, rfl, rfl, .inr rfl⟩
        · show _ ++ _ = _
          rw [hget, h.messages, List.drop_append_of_le_length hge]
          rfl
        · show min ((ctx.pinnedRequest.map _).getD 0) _ = _
          rw [getD_shift, List.length_drop]
          omega

end AgentContext

end Nanna.Agent
