import Nanna.Lib.Moves
import Nanna.Mcp.Stdio

/-!
# Every request is answered, or told that the connection is gone

`requests_resolved`: in every run whose steps meet a condition (`Safe`), a caller receives only the response
with its own id, and one at most; once the reader has ended no caller waits on its slot, and those it
cut off, or that come later, get `ConnectionClosed` (`Resolved`). The condition: the reader ends only when no
caller waits on its slot, it ends before the input is written to only where `close` has dropped the input, and a
response whose id has the text of a slot carries the id of that caller.

Nothing empties the slots when the reader ends, and a request that is written afterwards waits for its
time out: the transport for server-sent events clears them there. An id is kept as its text, where
the string `"1"` and the number 1 are one (`stranded_runs`).
-/

namespace Nanna.Mcp

open Nanna.Lib

variable {parse : Text → Option Json} {s s' t : State} {i j : Nat} {c c' : Caller} {move : Move} {act : Act}
  {id : Text} {response : JsonRpcResponse}

/-- The caller waits on its slot. -/
def State.Waits (s : State) (i : Nat) (c : Caller) : Prop :=
  c.phase = .waiting ∧ c.inbox = none ∧ s.Slotted i c

/-- What callers are told. -/
structure Resolved (s : State) : Prop where
  /-- What is sent to a caller has its id. -/
  own : ∀ i response, (i, response) ∈ s.deliveries → ∃ c, s.callers[i]? = some c ∧ response.id = c.request.id
  once : (s.deliveries.map Prod.fst).Nodup
  received : ∀ i c response, s.callers[i]? = some c → c.phase = .returned (.ok response) →
    (i, response) ∈ s.deliveries
  noneWaits : s.reader = .ended → ∀ i c, s.callers[i]? = some c → ¬ s.Waits i c
  told : ∀ c ∈ s.callers, c.cutOff = true → ∀ result, c.phase = .returned result →
    result = .error .connectionClosed

/-- The condition on a step. -/
def Safe (parse : Text → Option Json) (s : State) : Act → Prop
  | .line line _ => ∀ response, classifyIncoming parse line = .response response → ∀ i c,
      s.pending.find response.id.display = some i → s.callers[i]? = some c → c.listening = true →
        response.id = c.request.id
  | .outputEnds | .hearShutdown => ∀ i c, s.callers[i]? = some c → ¬ s.Waits i c
  | .caller i (.write _) => s.reader = .ended → s.stdin = true → ∀ c, s.callers[i]? = some c → c.inbox ≠ none
  | _ => True

/-! ## What holds of slots and callers -/

/-- A phase in which a caller may have a slot. -/
def Caller.slottable (c : Caller) : Prop :=
  match c.phase with
  | .writing | .failed _ | .waiting | .expired => True
  | .registering | .returned _ => False

/-- What a caller that has been cut off is told. -/
def Caller.Told (c : Caller) : Prop :=
  match c.phase with
  | .registering | .writing | .waiting => c.inbox = none
  | .failed error => error = .connectionClosed
  | .expired => False
  | .returned result => result = .error .connectionClosed

/-- Slots, channels and deliveries fit together. -/
structure Kept (s : State) : Prop where
  slot : ∀ id i, s.pending.find id = some i → ∃ c, s.callers[i]? = some c ∧ c.request.id.display = id ∧
    c.slottable ∧ c.inbox = none
  fresh : ∀ c ∈ s.callers, c.phase = .registering → c.inbox = none
  delivered : ∀ i response, (i, response) ∈ s.deliveries → ∃ c, s.callers[i]? = some c ∧
    response.id = c.request.id ∧ c.inbox = some response
  arrived : ∀ i c response, s.callers[i]? = some c → c.inbox = some response → (i, response) ∈ s.deliveries
  once : (s.deliveries.map Prod.fst).Nodup
  received : ∀ c ∈ s.callers, ∀ response, c.phase = .returned (.ok response) → c.inbox = some response
  noneWaits : s.reader = .ended → ∀ i c, s.callers[i]? = some c → ¬ s.Waits i c
  told : ∀ c ∈ s.callers, c.cutOff = true → s.reader = .ended ∧ c.Told

theorem Kept.resolved (h : Kept s) : Resolved s where
  own i response hmem := by
    obtain ⟨c, hget, hid, -⟩ := h.delivered i response hmem
    exact ⟨c, hget, hid⟩
  once := h.once
  received i c response hget hphase :=
    h.arrived i c response hget (h.received c (List.mem_of_getElem? hget) response hphase)
  noneWaits := h.noneWaits
  told c hmem hcut result hphase := by
    have htold := (h.told c hmem hcut).2
    unfold Caller.Told at htold
    rwa [hphase] at htold

theorem kept_spawn : Kept spawn where
  slot _ _ h := nomatch h
  fresh _ h := nomatch h
  delivered _ _ h := nomatch h
  arrived _ _ _ h := nomatch h
  once := .nil
  received _ h := nomatch h
  noneWaits h := nomatch h
  told _ h := nomatch h

/-! ## A section of a call -/

/-- What a section of a call leaves as it is. -/
theorem CallerStep.frame (h : CallerStep s i c move s' c') : s'.reader = s.reader ∧
    s'.deliveries = s.deliveries ∧ c'.request = c.request ∧ c'.inbox = c.inbox ∧ c'.cutOff = c.cutOff := by
  cases h with
  | _ => exact ⟨rfl, rfl, rfl, rfl, rfl⟩

/-- A slot after a section of a call: its own new one, or an old one. -/
theorem CallerStep.find (h : CallerStep s i c move s' c') (hfind : s'.pending.find id = some j) :
    (j = i ∧ id = c.request.id.display ∧ c.phase = .registering ∧ c'.phase = .writing) ∨
      s.pending.find id = some j := by
  cases h with
  | register hphase =>
    change (s.pending.set c.request.id.display i).find id = some j at hfind
    rw [Dict.find_set] at hfind
    split at hfind
    · rename_i hid
      exact .inl ⟨(Option.some.inj hfind).symm, hid.symm, hphase, rfl⟩
    · exact .inr hfind
  | unsent | late =>
    change (s.pending.erase c.request.id.display).find id = some j at hfind
    rw [Dict.find_erase] at hfind
    split at hfind
    · cases hfind
    · exact .inr hfind
  | _ => exact .inr hfind

/-- The caller's own slot, once it has taken a step. -/
theorem CallerStep.slottable (h : CallerStep s i c move s' c') (hslot : s'.Slotted i c)
    (hold : s.Slotted i c → c.inbox = none) : c'.slottable := by
  cases h with
  | register | write | fail | refuse | expire => trivial
  | unsent | late =>
    change (s.pending.erase c.request.id.display).find c.request.id.display = some i at hslot
    rw [Dict.find_erase, if_pos rfl] at hslot
    cases hslot
  | receive _ hinbox => cases hinbox.symm.trans (hold hslot)
  | dropped _ _ hnot => exact absurd hslot hnot

theorem CallerStep.told (h : CallerStep s i c move s' c') (htold : c.Told) (hnone : ¬ s.Waits i c)
    (hsafe : ∀ failure, move = .write failure → s.stdin = true → c.inbox ≠ none) : c'.Told := by
  unfold Caller.Told at htold
  cases h with
  | register hphase =>
    rw [hphase] at htold
    exact htold
  | write hphase hstdin | fail hphase hstdin =>
    rw [hphase] at htold
    exact absurd htold (hsafe _ rfl hstdin)
  | refuse => rfl
  | unsent hphase =>
    rw [hphase] at htold
    exact congrArg Except.error htold
  | late hphase =>
    rw [hphase] at htold
    cases htold
  | receive hphase hinbox =>
    rw [hphase, hinbox] at htold
    cases htold
  | dropped => rfl
  | expire hphase hinbox hslot => exact absurd ⟨hphase, hinbox, hslot⟩ hnone

/-- A caller waits on its slot because it did, or because it has just written its line. -/
theorem CallerStep.waits (h : CallerStep s i c move s' c') (hwaits : s'.Waits i c') :
    s.stdin = true ∧ c.inbox = none ∧ ∃ failure, move = .write failure := by
  obtain ⟨hphase, hinbox, -⟩ := hwaits
  cases h with
  | write _ hstdin => exact ⟨hstdin, hinbox, none, rfl⟩
  | _ => cases hphase

theorem CallerStep.received (h : CallerStep s i c move s' c') (hphase : c'.phase = .returned (.ok response)) :
    c'.inbox = some response := by
  cases h with
  | receive _ hinbox =>
    cases hphase
    exact hinbox
  | _ => cases hphase

theorem CallerStep.phase_ne (h : CallerStep s i c move s' c') : c'.phase ≠ .registering := by
  cases h with
  | _ => nofun

theorem forall_mem_set {β : Type} {Q : β → Prop} {l : List β} {i : Nat} {a : β} (hall : ∀ b ∈ l, Q b)
    (hnew : Q a) : ∀ b ∈ l.set i a, Q b := fun b hb =>
  (List.mem_or_eq_of_mem_set hb).elim (hall b) fun heq => heq ▸ hnew

theorem kept_caller (h : Kept s) (hget : s.callers[i]? = some c) (hcall : CallerStep s i c move s' c')
    (hsafe : Safe parse s (.caller i move)) : Kept { s' with callers := s.callers.set i c' } := by
  obtain ⟨hreader, hdeliveries, hrequest, hinbox, hcut⟩ := hcall.frame
  have hold : c ∈ s.callers := List.mem_of_getElem? hget
  have hself : (s.callers.set i c')[i]? = some c' :=
    List.getElem?_set_self (List.getElem?_eq_some_iff.mp hget).1
  have hother : ∀ {j}, j ≠ i → (s.callers.set i c')[j]? = s.callers[j]? :=
    fun hne => List.getElem?_set_ne (Ne.symm hne)
  have hwrite : s.reader = .ended → ∀ failure, move = .write failure → s.stdin = true → c.inbox ≠ none := by
    rintro hended failure rfl hstdin
    exact hsafe hended hstdin c hget
  constructor
  · intro id j hfind
    by_cases hj : j = i
    · subst hj
      refine ⟨c', hself, ?_⟩
      rw [hrequest, hinbox]
      rcases hcall.find hfind with ⟨-, rfl, hphase, hwriting⟩ | hfound
      · unfold Caller.slottable
        rw [hwriting]
        exact ⟨rfl, trivial, h.fresh c hold hphase⟩
      · obtain ⟨c₀, hget₀, rfl, -, hempty⟩ := h.slot id j hfound
        obtain rfl := Option.some.inj (hget.symm.trans hget₀)
        exact ⟨rfl, hcall.slottable hfind fun _ => hempty, hempty⟩
    · rcases hcall.find hfind with ⟨heq, -⟩ | hfound
      · exact absurd heq hj
      · obtain ⟨c₀, hget₀, hslot⟩ := h.slot id j hfound
        exact ⟨c₀, (hother hj).trans hget₀, hslot⟩
  · exact forall_mem_set h.fresh fun hphase => absurd hphase hcall.phase_ne
  · intro j response hdelivered
    obtain ⟨c₀, hget₀, hid, hcame⟩ := h.delivered j response (hdeliveries ▸ hdelivered)
    by_cases hj : j = i
    · subst hj
      obtain rfl := Option.some.inj (hget.symm.trans hget₀)
      exact ⟨c', hself, hrequest ▸ hid, hinbox.trans hcame⟩
    · exact ⟨c₀, (hother hj).trans hget₀, hid, hcame⟩
  · intro j c₀ response hget₀ hcame
    refine hdeliveries ▸ ?_
    by_cases hj : j = i
    · subst hj
      obtain rfl := Option.some.inj (hself.symm.trans hget₀)
      exact h.arrived j c response hget (hinbox.symm.trans hcame)
    · exact h.arrived j c₀ response ((hother hj).symm.trans hget₀) hcame
  · exact hdeliveries ▸ h.once
  · exact forall_mem_set h.received fun response hphase => hcall.received hphase
  · intro hended' j c₀ hget₀ hwaits
    have hended : s.reader = .ended := hreader.symm.trans hended'
    by_cases hj : j = i
    · subst hj
      obtain rfl := Option.some.inj (hself.symm.trans hget₀)
      obtain ⟨hstdin, hempty, failure, hmove⟩ := hcall.waits hwaits
      exact hwrite hended failure hmove hstdin hempty
    · obtain ⟨hphase, hempty, hslot⟩ := hwaits
      rcases hcall.find hslot with ⟨heq, -⟩ | hfound
      · exact hj heq
      · exact h.noneWaits hended j c₀ ((hother hj).symm.trans hget₀) ⟨hphase, hempty, hfound⟩
  · refine forall_mem_set (fun c hc hcut => ⟨hreader.trans (h.told c hc hcut).1, (h.told c hc hcut).2⟩)
      fun hcutOff => ?_
    obtain ⟨hended, htold⟩ := h.told c hold (hcut ▸ hcutOff)
    exact ⟨hreader.trans hended, hcall.told htold (h.noneWaits hended i c hget) (hwrite hended)⟩

/-! ## The reader -/

/-- Some slots are gone. -/
theorem Kept.erase (h : Kept s) : Kept { s with pending := s.pending.erase id } := by
  have hfind : ∀ {id' i}, (s.pending.erase id).find id' = some i → s.pending.find id' = some i := by
    intro id' i hfind
    rw [Dict.find_erase] at hfind
    split at hfind
    · cases hfind
    · exact hfind
  refine ⟨fun id' i hslot => h.slot id' i (hfind hslot), h.fresh, h.delivered, h.arrived, h.once, h.received,
    fun hended i c hget hwaits => ?_, h.told⟩
  exact h.noneWaits hended i c hget ⟨hwaits.1, hwaits.2.1, hfind hwaits.2.2⟩

theorem kept_send (h : Kept s) (hrunning : s.reader = .running) (hget : s.callers[i]? = some c)
    (hempty : c.inbox = none) (hphase : c.slottable) (hnone : ∀ id, s.pending.find id ≠ some i)
    (hid : c.listening = true → response.id = c.request.id) : Kept (s.send i response) := by
  rw [State.send, hget]
  dsimp only
  split
  case isFalse => exact h
  rename_i hlistening
  have hold : c ∈ s.callers := List.mem_of_getElem? hget
  have hself : (s.callers.set i { c with inbox := some response })[i]? = some { c with inbox := some response } :=
    List.getElem?_set_self (List.getElem?_eq_some_iff.mp hget).1
  have hother : ∀ {j}, j ≠ i →
      (s.callers.set i { c with inbox := some response })[j]? = s.callers[j]? :=
    fun hne => List.getElem?_set_ne (Ne.symm hne)
  have hnever : ∀ c ∈ s.callers, c.cutOff ≠ true := fun c hc hcut =>
    nomatch hrunning.symm.trans (h.told c hc hcut).1
  refine ⟨fun id j hfind => ?_, forall_mem_set h.fresh fun hregistering => ?_, fun j response' hdelivered => ?_,
    fun j c₀ response' hget₀ hcame => ?_, ?_, forall_mem_set h.received fun response' hreturned => ?_,
    fun hended => (nomatch hrunning.symm.trans hended), forall_mem_set
      (fun c hc hcut => absurd hcut (hnever c hc)) fun hcut => absurd hcut (hnever c hold)⟩
  · obtain ⟨c₀, hget₀, hslot⟩ := h.slot id j hfind
    have hj : j ≠ i := fun heq => hnone id (heq ▸ hfind)
    exact ⟨c₀, (hother hj).trans hget₀, hslot⟩
  · unfold Caller.slottable at hphase
    rw [show c.phase = .registering from hregistering] at hphase
    cases hphase
  · rcases List.mem_cons.mp hdelivered with heq | hdelivered
    · cases heq
      exact ⟨_, hself, hid hlistening, rfl⟩
    · obtain ⟨c₀, hget₀, hown, hcame⟩ := h.delivered j response' hdelivered
      have hj : j ≠ i := by
        rintro rfl
        obtain rfl := Option.some.inj (hget.symm.trans hget₀)
        cases hempty.symm.trans hcame
      exact ⟨c₀, (hother hj).trans hget₀, hown, hcame⟩
  · by_cases hj : j = i
    · subst hj
      obtain rfl := Option.some.inj (hself.symm.trans hget₀)
      cases hcame
      exact List.mem_cons_self
    · exact List.mem_cons_of_mem _ (h.arrived j c₀ response' ((hother hj).symm.trans hget₀) hcame)
  · change (i :: s.deliveries.map Prod.fst).Nodup
    refine List.nodup_cons.mpr ⟨fun hmem => ?_, h.once⟩
    obtain ⟨⟨j, response'⟩, hdelivered, rfl⟩ := List.mem_map.mp hmem
    obtain ⟨c₀, hget₀, -, hcame⟩ := h.delivered j response' hdelivered
    obtain rfl := Option.some.inj (hget.symm.trans hget₀)
    cases hempty.symm.trans hcame
  · unfold Caller.slottable at hphase
    rw [show c.phase = .returned (.ok response') from hreturned] at hphase
    cases hphase

theorem kept_line (h : Kept s) {line : Text} {failure : Option Text} (hrunning : s.reader = .running)
    (hsafe : Safe parse s (.line line failure)) :
    Kept (s.routeLine (classifyIncoming parse line) failure) := by
  cases hincoming : classifyIncoming parse line with
  | response response =>
    rw [State.routeLine]
    split
    · rename_i i hfind
      obtain ⟨c, hget, hid, hphase, hempty⟩ := h.slot _ i hfind
      refine kept_send h.erase hrunning hget hempty hphase (fun id hslot => ?_)
        (hsafe response hincoming i c hfind hget)
      change (s.pending.erase response.id.display).find id = some i at hslot
      rw [Dict.find_erase] at hslot
      split at hslot
      · cases hslot
      · rename_i hne
        obtain ⟨c₀, hget₀, hid₀, -⟩ := h.slot id i hslot
        obtain rfl := Option.some.inj (hget.symm.trans hget₀)
        exact hne (hid.symm.trans hid₀)
    · exact h
  | serverRequest id method =>
    unfold State.routeLine State.writeLine
    dsimp only
    split
    · rename_i s' hwritten
      split at hwritten
      · split at hwritten
        · cases hwritten
          exact ⟨h.slot, h.fresh, h.delivered, h.arrived, h.once, h.received, h.noneWaits, h.told⟩
        · cases hwritten
      · cases hwritten
    · exact h
  | notification notif =>
    exact ⟨h.slot, h.fresh, h.delivered, h.arrived, h.once, h.received, h.noneWaits, h.told⟩
  | unreadable => exact h

theorem told_of_unresolved (h : c.unresolved = true) : c.Told := by
  unfold Caller.unresolved at h
  unfold Caller.Told
  cases hphase : c.phase with
  | registering | writing | waiting =>
    rw [hphase] at h
    exact Option.isNone_iff_eq_none.mp h
  | failed | expired | returned =>
    rw [hphase] at h
    cases h

theorem kept_endReader (h : Kept s) (hsafe : ∀ i c, s.callers[i]? = some c → ¬ s.Waits i c) :
    Kept s.endReader := by
  have hget : ∀ {j : Nat} {c' : Caller}, s.endReader.callers[j]? = some c' →
      ∃ c, s.callers[j]? = some c ∧ c' = { c with cutOff := c.cutOff || c.unresolved } := by
    intro j c' hget
    obtain ⟨c, hold, rfl⟩ := Option.map_eq_some_iff.mp (List.getElem?_map.symm.trans hget)
    exact ⟨c, hold, rfl⟩
  have hput : ∀ {j : Nat} {c : Caller}, s.callers[j]? = some c →
      s.endReader.callers[j]? = some { c with cutOff := c.cutOff || c.unresolved } :=
    fun hget => List.getElem?_map.trans (congrArg (Option.map _) hget)
  have hmem : ∀ {c' : Caller}, c' ∈ s.endReader.callers →
      ∃ c ∈ s.callers, c' = { c with cutOff := c.cutOff || c.unresolved } := fun hc => by
    obtain ⟨c, hold, rfl⟩ := List.mem_map.mp hc
    exact ⟨c, hold, rfl⟩
  refine ⟨fun id j hfind => ?_, fun c' hc hphase => ?_, fun j response hdelivered => ?_,
    fun j c' response hget' hcame => ?_, h.once, fun c' hc response hphase => ?_,
    fun _ j c' hget' hwaits => ?_, fun c' hc hcut => ⟨rfl, ?_⟩⟩
  · obtain ⟨c, hget, hslot⟩ := h.slot id j hfind
    exact ⟨_, hput hget, hslot⟩
  · obtain ⟨c, hold, rfl⟩ := hmem hc
    exact h.fresh c hold hphase
  · obtain ⟨c, hget, hown⟩ := h.delivered j response hdelivered
    exact ⟨_, hput hget, hown⟩
  · obtain ⟨c, hget, rfl⟩ := hget hget'
    exact h.arrived j c response hget hcame
  · obtain ⟨c, hold, rfl⟩ := hmem hc
    exact h.received c hold response hphase
  · obtain ⟨c, hget, rfl⟩ := hget hget'
    exact hsafe j c hget hwaits
  · obtain ⟨c, hold, rfl⟩ := hmem hc
    rcases Bool.or_eq_true_iff.mp hcut with hcut | hunresolved
    · exact (h.told c hold hcut).2
    · exact told_of_unresolved hunresolved

/-! ## Every run -/

theorem kept_request (h : Kept s) (request : JsonRpcRequest) :
    Kept { s with callers := s.callers ++ [{ request, cutOff := s.reader = .ended }] } := by
  let new : Caller := { request, cutOff := s.reader = .ended }
  have hkeep : ∀ {j : Nat} {c : Caller}, s.callers[j]? = some c → (s.callers ++ [new])[j]? = some c := fun hget =>
    (List.getElem?_append_left (List.getElem?_eq_some_iff.mp hget).1).trans hget
  have hget : ∀ {j : Nat} {c : Caller}, (s.callers ++ [new])[j]? = some c → s.callers[j]? = some c ∨ c = new := by
    intro j c hget
    by_cases hlt : j < s.callers.length
    · exact .inl ((List.getElem?_append_left hlt).symm.trans hget)
    · have hlast := (List.getElem?_append_right (Nat.le_of_not_lt hlt)).symm.trans hget
      exact .inr (List.mem_singleton.mp (List.mem_of_getElem? hlast))
  have hmem : ∀ {Q : Caller → Prop}, (∀ c ∈ s.callers, Q c) → Q new → ∀ c ∈ s.callers ++ [new], Q c :=
    fun hall hnew c hc => (List.mem_append.mp hc).elim (hall c) fun hc => List.mem_singleton.mp hc ▸ hnew
  refine ⟨fun id j hfind => ?_, hmem h.fresh fun _ => rfl, fun j response hdelivered => ?_,
    fun j c response hget' hcame => ?_, h.once, hmem h.received nofun, fun hended j c hget' hwaits => ?_,
    hmem h.told fun hcut => ⟨of_decide_eq_true hcut, rfl⟩⟩
  · obtain ⟨c, hold, hslot⟩ := h.slot id j hfind
    exact ⟨c, hkeep hold, hslot⟩
  · obtain ⟨c, hold, hown⟩ := h.delivered j response hdelivered
    exact ⟨c, hkeep hold, hown⟩
  · rcases hget hget' with hold | rfl
    · exact h.arrived j c response hold hcame
    · cases hcame
  · rcases hget hget' with hold | rfl
    · exact h.noneWaits hended j c hold hwaits
    · cases hwaits.1

theorem kept_step (h : Kept s) (hsafe : Safe parse s act) (hstep : step parse s act = some t) : Kept t := by
  cases act with
  | request request =>
    cases hstep
    exact kept_request h request
  | caller i move =>
    rw [step] at hstep
    split at hstep
    · rename_i c hget
      obtain ⟨⟨s', c'⟩, hcall, rfl⟩ := Option.map_eq_some_iff.mp hstep
      exact kept_caller h hget (callerStep_inv hcall) hsafe
    · cases hstep
  | line line failure =>
    rw [step] at hstep
    split at hstep
    · rename_i hrunning
      cases hstep
      exact kept_line h hrunning hsafe
    · cases hstep
  | outputEnds =>
    rw [step] at hstep
    split at hstep
    · cases hstep
      exact kept_endReader h hsafe
    · cases hstep
  | hearShutdown =>
    rw [step] at hstep
    split at hstep
    · cases hstep
      have hended := kept_endReader h hsafe
      exact ⟨hended.slot, hended.fresh, hended.delivered, hended.arrived, hended.once, hended.received,
        hended.noneWaits, hended.told⟩
    · cases hstep
  | close =>
    cases hstep
    exact ⟨h.slot, h.fresh, h.delivered, h.arrived, h.once, h.received, h.noneWaits, h.told⟩
  | closer j =>
    rw [step] at hstep
    split at hstep
    · split at hstep
      · cases hstep
        exact ⟨h.slot, h.fresh, h.delivered, h.arrived, h.once, h.received, h.noneWaits, h.told⟩
      · split at hstep
        · cases hstep
        · cases hstep
          exact ⟨h.slot, h.fresh, h.delivered, h.arrived, h.once, h.received, h.noneWaits, h.told⟩
    · cases hstep
      exact ⟨h.slot, h.fresh, h.delivered, h.arrived, h.once, h.received, h.noneWaits, h.told⟩
    · cases hstep
      exact ⟨h.slot, h.fresh, h.delivered, h.arrived, h.once, h.received, h.noneWaits, h.told⟩
    · cases hstep
    · cases hstep

/-- **Main result.** In every run of safe steps, callers are told what is theirs. -/
theorem requests_resolved (h : Moves (step parse) (Safe parse) spawn s) : Resolved s :=
  (h.invariant (fun hsafe hstep hs => kept_step hs hsafe hstep) kept_spawn).resolved

/-! ## A run that keeps the condition -/

instance (s : State) (i : Nat) (c : Caller) : Decidable (s.Waits i c) := inferInstanceAs (Decidable (_ ∧ _ ∧ _))

/-- A property of every element and its place. -/
def decidableForallGet {β : Type} (l : List β) (Q : Nat → β → Prop) [∀ i b, Decidable (Q i b)] :
    Decidable (∀ i b, l[i]? = some b → Q i b) :=
  decidable_of_iff (∀ i < l.length, ∀ b ∈ l[i]?, Q i b)
    ⟨fun h i b hget => h i (List.getElem?_eq_some_iff.mp hget).1 b hget, fun h i _ b hget => h i b hget⟩

instance (s : State) : Decidable (∀ i c, s.callers[i]? = some c → ¬ s.Waits i c) :=
  decidableForallGet s.callers fun i c => ¬ s.Waits i c

instance (parse : Text → Option Json) (s : State) (act : Act) : Decidable (Safe parse s act) :=
  match act with
  | .line line failure =>
    match hincoming : classifyIncoming parse line with
    | .response response =>
      decidable_of_iff (∀ i ∈ s.pending.find response.id.display, ∀ c ∈ s.callers[i]?,
          c.listening = true → response.id = c.request.id)
        ⟨fun h response' heq i c hfind hget => by
          obtain rfl := Incoming.response.inj (hincoming.symm.trans heq)
          exact h i hfind c hget, fun h i hfind c hget => h response hincoming i c hfind hget⟩
    | .serverRequest _ _ | .notification _ | .unreadable =>
      isTrue fun _ heq => nomatch hincoming.symm.trans heq
  | .outputEnds | .hearShutdown =>
    inferInstanceAs (Decidable (∀ i c, s.callers[i]? = some c → ¬ s.Waits i c))
  | .caller i (.write failure) =>
    inferInstanceAs (Decidable (_ → _ → ∀ c ∈ s.callers[i]?, c.inbox ≠ none))
  | .caller _ .register | .caller _ .unregister | .caller _ .receive | .caller _ .expire | .request _
  | .close | .closer _ => isTrue trivial

/-- A response without a result. -/
def answer (id : Json) : Json := .obj [("jsonrpc", .str "2.0"), ("id", id)]

/-- The lines of the runs below, as they are parsed. -/
def parseLine (line : Text) : Option Json :=
  if line = "1".toList then some (answer (.num (.int 1)))
  else if line = "2".toList then some (answer (.num (.int 2)))
  else if line = "7".toList then some (answer (.num (.int 7)))
  else if line = "text 1".toList then some (answer (.str "1"))
  else if line = "ping".toList then some (.obj [("jsonrpc", .str "2.0"), ("id", .num (.int 0)), ("method", .str "ping")])
  else if line = "changed".toList then
    some (.obj [("jsonrpc", .str "2.0"), ("method", .str "notifications/tools/list_changed")])
  else none

def listTools (id : Int) : Act := .request { id := .number id, method := "tools/list", params := none }

/-- A request up to where it waits. -/
def ask (i : Nat) (failure : Option Text) : List Act := [.caller i .register, .caller i (.write failure)]

/-- Two requests that are answered the other way round among other lines, one that times out, `close`, and
one that comes too late. -/
def answeredRun : List Act :=
  [listTools 1, listTools 2] ++ ask 0 none ++ ask 1 none ++
    [.line "2".toList none, .line "changed".toList none, .line "ping".toList none, .line "7".toList none,
      .line "\x7b".toList none, .line "1".toList none, .caller 0 .receive, .caller 1 .receive, listTools 3] ++
    ask 2 none ++ [.caller 2 .expire, .caller 2 .unregister, .close, .closer 0, .hearShutdown, .closer 0,
      .closer 0, listTools 4] ++ ask 3 none ++ [.caller 3 .unregister]

/-- How the calls end. -/
def ends (s : State) : List (Option (Except McpError RequestId)) :=
  s.callers.map fun c => match c.phase with
    | .returned (.ok response) => some (.ok response.id)
    | .returned (.error error) => some (.error error)
    | _ => none

theorem requests_resolved_answeredRun : ∃ s, runActs (step parseLine) (Safe parseLine) spawn answeredRun = some s ∧
    ends s = [some (.ok (.number 1)), some (.ok (.number 2)), some (.error .timeout),
      some (.error .connectionClosed)] ∧ Resolved s := by
  have hrun : (runActs (step parseLine) (Safe parseLine) spawn answeredRun).any (fun s =>
      ends s = [some (.ok (.number 1)), some (.ok (.number 2)), some (.error .timeout),
        some (.error .connectionClosed)]) = true := by
    decide
  obtain ⟨s, hs, hend⟩ := (Option.any_eq_true _ _).mp hrun
  exact ⟨s, hs, of_decide_eq_true hend, requests_resolved (.of_acts hs)⟩

/-! ## Callers that are not told -/

/-- A caller waits after the reader has ended, one that was cut off got something else, or one has the
answer to another id. -/
def stranded (s : State) : Bool :=
  (s.reader = .ended && s.callers.zipIdx.any fun (c, i) => s.Waits i c) ||
    (s.callers.any fun c => c.cutOff && (match c.phase with
      | .returned result => result ≠ .error .connectionClosed
      | _ => false)) ||
    s.deliveries.any fun (i, response) => s.callers[i]?.any fun c => response.id ≠ c.request.id

theorem not_resolved_of_stranded (h : stranded s = true) : ¬ Resolved s := by
  intro hresolved
  rcases Bool.or_eq_true_iff.mp h with h | h
  · rcases Bool.or_eq_true_iff.mp h with h | h
    · obtain ⟨hended, hany⟩ := Bool.and_eq_true_iff.mp h
      obtain ⟨⟨c, i⟩, hmem, hwaits⟩ := List.any_eq_true.mp hany
      have hget : s.callers[i]? = some c := List.mem_zipIdx_iff_getElem?.mp hmem
      exact hresolved.noneWaits (of_decide_eq_true hended) i c hget (of_decide_eq_true hwaits)
    · obtain ⟨c, hmem, hc⟩ := List.any_eq_true.mp h
      obtain ⟨hcut, hresult⟩ := Bool.and_eq_true_iff.mp hc
      split at hresult
      · rename_i result hphase
        exact of_decide_eq_true hresult (hresolved.told c hmem hcut result hphase)
      · cases hresult
  · obtain ⟨⟨i, response⟩, hmem, hany⟩ := List.any_eq_true.mp h
    obtain ⟨c, hget, hne⟩ := (Option.any_eq_true _ _).mp hany
    obtain ⟨c₀, hget₀, hid⟩ := hresolved.own i response hmem
    obtain rfl := Option.some.inj (hget.symm.trans hget₀)
    exact of_decide_eq_true hne hid

/-- The server closes its output while a caller waits; a request comes after that, and its line is written, or
the pipe is broken; `close` has told the reader to stop; and a text comes for a number. -/
def strandedRuns : List (List Act) :=
  [[listTools 1] ++ ask 0 none ++ [.outputEnds],
    [.outputEnds, listTools 1] ++ ask 0 none,
    [.outputEnds, listTools 1] ++ ask 0 (some "EPIPE".toList) ++ [.caller 0 .unregister],
    [listTools 1] ++ ask 0 none ++ [.close, .closer 0, .hearShutdown, .closer 0, .closer 0, .caller 0 .expire,
      .caller 0 .unregister],
    [listTools 1] ++ ask 0 none ++ [.line "text 1".toList none]]

theorem stranded_runs : strandedRuns.Forall fun acts => ∃ s,
    runActs (step parseLine) (fun _ _ => True) spawn acts = some s ∧ ¬ Resolved s := by
  have hall : ∀ acts ∈ strandedRuns,
      ((runActs (step parseLine) (fun _ _ => True) spawn acts).any stranded) = true := by
    decide
  refine List.forall_iff_forall_mem.mpr fun acts hacts => ?_
  obtain ⟨s, hs, hstranded⟩ := (Option.any_eq_true _ _).mp (hall acts hacts)
  exact ⟨s, hs, not_resolved_of_stranded hstranded⟩

end Nanna.Mcp
