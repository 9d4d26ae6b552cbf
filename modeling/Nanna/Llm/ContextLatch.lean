import Mathlib.Data.List.Chain
import Nanna.Lib.Decimal
import Nanna.Lib.Descent
import Nanna.Lib.Dict
import Nanna.Lib.Moves

/-!
# The context size of a model on a server

`latch_ladder`: in every interleaving of requests that measure the card, windows that are read and
demotions after GPU faults, the sizes of a model on a server form one ladder: a request carries the size
that was read or sent or stepped down to last, and each demotion steps down by a quarter or to its floor,
so that a floor is reached in boundedly many.

Whether a server is on this machine and what fits its card come from outside (`Setup.isLocal`, `fit`). A
request reads the latch under one lock and settles it under another, so other requests and demotions run
while it measures.
-/

namespace Nanna.Llm.ContextLatch

open Nanna.Lib

/-! ## Sizes -/

def NUM_CTX_QUANTUM : Nat := 512
def NUM_CTX_CEILING : Nat := 32768
def DEFAULT_MIN_VIABLE_NUM_CTX : Nat := 4608
def UNKNOWN_VRAM_NUM_CTX : Nat := 16384

structure Setup where
  /-- `NANNA_OLLAMA_NUM_CTX`, if it is set. -/
  pinned : Option Text
  /-- `ollama_server_is_local`. -/
  isLocal : Text → Bool

variable (setup : Setup)

def envNumCtx : Option Nat :=
  (setup.pinned.bind fun v => parseUnsigned (2 ^ 32) (Text.trim v)).filter (2048 ≤ ·)

def unpinnedStartNumCtx (server : Text) (fit : Option Nat) : Nat :=
  if !setup.isLocal server then UNKNOWN_VRAM_NUM_CTX else fit.getD UNKNOWN_VRAM_NUM_CTX

/-- The start that a request latches; `fit` is what the card was measured for. -/
def startNumCtx (server : Text) (fit : Option Nat) : Nat :=
  (envNumCtx setup).getD (unpinnedStartNumCtx setup server fit)

def unmeasuredStartNumCtx (server : Text) : Option Nat :=
  (envNumCtx setup).or (if !setup.isLocal server then some UNKNOWN_VRAM_NUM_CTX else none)

/-! ## The latch -/

/-- A server and a bare model. -/
abbrev Key := Text × Text

def bareModel (model : Text) : Text :=
  if "ollama/".toList.isPrefixOf model then model.drop "ollama/".length else model

def ctxLatchKey (server model : Text) : Key := (server, bareModel model)

abbrev Sizes := Dict Key Nat

/-- The size a request under this key will carry, as far as it is known without measuring. -/
def Sizes.known (sizes : Sizes) (key : Key) : Option Nat :=
  (sizes.find key).or (unmeasuredStartNumCtx setup key.1)

def knownNumCtx (sizes : Sizes) (server model : Text) : Option Nat :=
  sizes.known setup (ctxLatchKey server model)

/-- A size latched while this one was measured is kept. -/
def latchNumCtxFor (sizes : Sizes) (server model : Text) (ctx : Nat) : Sizes × Nat :=
  match sizes.find (ctxLatchKey server model) with
  | some latched => (sizes, latched)
  | none => (sizes.set (ctxLatchKey server model) ctx, ctx)

/-- The floor of a demotion: `min_viable_ctx` rounded up to the quantum, in 32 bits. -/
def demotionFloor (minViableCtx : Option Nat) : Nat :=
  min ((minViableCtx.getD DEFAULT_MIN_VIABLE_NUM_CTX + NUM_CTX_QUANTUM - 1) / NUM_CTX_QUANTUM * NUM_CTX_QUANTUM)
    (2 ^ 32 - 1)

/-- The rung below `current`. -/
def nextRung (current floor : Nat) : Nat :=
  let stepped := current / 4 * 3 / NUM_CTX_QUANTUM * NUM_CTX_QUANTUM
  if stepped < floor then floor else stepped

/-- The size `demote_context` walks down from. -/
def demotedFrom (sizes : Sizes) (server model : Text) : Nat :=
  (knownNumCtx setup sizes server model).getD NUM_CTX_CEILING

/-- `demote_context` of a client of `server`. -/
def demoteContext (sizes : Sizes) (server model : Text) (minViableCtx : Option Nat) : Option (Sizes × Nat) :=
  let floor := demotionFloor minViableCtx
  let current := demotedFrom setup sizes server model
  if current ≤ floor then none
  else some (sizes.set (ctxLatchKey server model) (nextRung current floor), nextRung current floor)

/-! ## Requests, readers and demotions -/

inductive LatchKind
  /-- `effective_num_ctx` answered. -/
  | read
  /-- A request went out. -/
  | sent
  | demoted (before floor : Nat)
  deriving DecidableEq

structure LatchEvent where
  key : Key
  kind : LatchKind
  size : Nat
  deriving DecidableEq

structure Latches where
  sizes : Sizes
  /-- Server and model of the requests that found no size latched and measure. -/
  measuring : List (Text × Text)
  /-- What was read, sent and demoted, newest first. -/
  trace : List LatchEvent

def Latches.empty : Latches := ⟨Table.empty, [], []⟩

inductive LatchAct
  | read (server model : Text)
  /-- `resolve_num_ctx` up to the look at the latch; `explicit` is the caller's own size. -/
  | request (server model : Text) (explicit : Option Nat)
  /-- A request that measured settles. -/
  | measured (i : Nat) (fit : Option Nat)
  | demote (server model : Text) (minViableCtx : Option Nat)

def Latches.push (s : Latches) (sizes : Sizes) (event : LatchEvent) : Latches :=
  { s with sizes, trace := event :: s.trace }

def Latches.step (s : Latches) : LatchAct → Option Latches
  | .read server model =>
    match knownNumCtx setup s.sizes server model with
    | some size => some (s.push s.sizes ⟨ctxLatchKey server model, .read, size⟩)
    | none => some s
  | .request server model explicit =>
    match explicit, s.sizes.find (ctxLatchKey server model) with
    | some _, _ => some s
    | none, some latched => some (s.push s.sizes ⟨ctxLatchKey server model, .sent, latched⟩)
    | none, none => some { s with measuring := s.measuring ++ [(server, model)] }
  | .measured i fit =>
    match s.measuring[i]? with
    | none => none
    | some (server, model) =>
      let latched := latchNumCtxFor s.sizes server model (startNumCtx setup server fit)
      some (Latches.push { s with measuring := s.measuring.eraseIdx i } latched.1
        ⟨ctxLatchKey server model, .sent, latched.2⟩)
  | .demote server model minViableCtx =>
    match demoteContext setup s.sizes server model minViableCtx with
    | none => some s
    | some (sizes, next) =>
      some (s.push sizes ⟨ctxLatchKey server model,
        .demoted (demotedFrom setup s.sizes server model) (demotionFloor minViableCtx), next⟩)

abbrev run (acts : List LatchAct) : Option Latches :=
  runActs (Latches.step setup) (fun _ _ => True) Latches.empty acts

/-! ## The ladder -/

/-- The size in force before the event. -/
def LatchEvent.before (e : LatchEvent) : Nat :=
  match e.kind with
  | .demoted before _ => before
  | _ => e.size

def LatchEvent.isDemotion (e : LatchEvent) : Bool :=
  match e.kind with
  | .demoted _ _ => true
  | _ => false

/-- A demotion starts above its floor, and takes a quarter or lands on the floor. -/
def LatchEvent.Valid (e : LatchEvent) : Prop :=
  ∀ before floor, e.kind = .demoted before floor →
    floor < before ∧ floor ≤ e.size ∧ e.size < before ∧ (e.size = floor ∨ 4 * e.size ≤ 3 * before)

/-- The events of one key, newest first, with nothing missing between two of them. -/
structure Ladder (events : List LatchEvent) : Prop where
  joined : events.IsChain fun next prev => next.before = prev.size
  valid : ∀ e ∈ events, e.Valid

def Latches.events (s : Latches) (key : Key) : List LatchEvent := s.trace.filter (·.key = key)

variable {setup}

theorem nextRung_spec {current floor : Nat} (h : floor < current) : floor ≤ nextRung current floor ∧
    nextRung current floor < current ∧ (nextRung current floor = floor ∨ 4 * nextRung current floor ≤ 3 * current) := by
  unfold nextRung NUM_CTX_QUANTUM
  dsimp only
  split_ifs with hstepped
  · exact ⟨le_rfl, h, .inl rfl⟩
  · refine ⟨not_lt.mp hstepped, ?_, .inr ?_⟩ <;> omega

theorem startNumCtx_of_unmeasured {server : Text} {start : Nat} (fit : Option Nat)
    (h : unmeasuredStartNumCtx setup server = some start) : startNumCtx setup server fit = start := by
  unfold unmeasuredStartNumCtx at h
  unfold startNumCtx unpinnedStartNumCtx
  cases hpin : envNumCtx setup with
  | some pinned =>
    rw [hpin] at h
    exact Option.some.inj h
  | none =>
    rw [hpin, Option.none_or] at h
    split_ifs at h ⊢ with hlocal
    exact Option.some.inj h

theorem known_set (sizes : Sizes) (j k : Key) (size : Nat) :
    Sizes.known setup (sizes.set j size) k = if j = k then some size else sizes.known setup k := by
  unfold Sizes.known
  rw [Dict.find_set]
  split_ifs <;> rfl

/-- What every step keeps. -/
structure Kept (setup : Setup) (s : Latches) : Prop where
  ladder : ∀ key, Ladder (s.events key)
  /-- The last size is the one in force. -/
  latest : ∀ key, ∀ e ∈ (s.events key).head?, s.sizes.known setup key = some e.size
  unlatched : ∀ key, s.events key = [] → s.sizes.find key = none

theorem Kept.empty : Kept setup Latches.empty where
  ladder _ := ⟨.nil, fun _ he => absurd he List.not_mem_nil⟩
  latest _ _ he := nomatch he
  unlatched _ _ := rfl

/-- An event that starts from the size in force and leaves its own. -/
theorem Kept.push {s : Latches} {sizes : Sizes} {event : LatchEvent} (h : Kept setup s)
    (hjoined : ∀ size, s.sizes.known setup event.key = some size → event.before = size) (hvalid : event.Valid)
    (hsize : sizes.known setup event.key = some event.size)
    (hother : ∀ key, key ≠ event.key → sizes.find key = s.sizes.find key) : Kept setup (s.push sizes event) := by
  have hown : (s.push sizes event).events event.key = event :: s.events event.key := by
    simp [Latches.events, Latches.push]
  have hkeep : ∀ key, key ≠ event.key → (s.push sizes event).events key = s.events key := fun key hne => by
    simp [Latches.events, Latches.push, Ne.symm hne]
  refine ⟨fun key => ?_, fun key e he => ?_, fun key hnil => ?_⟩
  · by_cases hkey : key = event.key
    · subst hkey
      rw [hown]
      refine ⟨List.isChain_cons.mpr ⟨fun prev hprev => ?_, (h.ladder _).joined⟩, fun e he => ?_⟩
      · exact hjoined _ (h.latest _ prev hprev)
      · rcases List.mem_cons.mp he with rfl | he
        · exact hvalid
        · exact (h.ladder _).valid e he
    · rw [hkeep key hkey]
      exact h.ladder key
  · by_cases hkey : key = event.key
    · subst hkey
      rw [hown] at he
      cases he
      exact hsize
    · rw [hkeep key hkey] at he
      show sizes.known setup key = _
      rw [Sizes.known, hother key hkey]
      exact h.latest key e he
  · by_cases hkey : key = event.key
    · subst hkey
      rw [hown] at hnil
      cases hnil
    · rw [hkeep key hkey] at hnil
      exact (hother key hkey).trans (h.unlatched key hnil)

variable (setup) in
/-- A size latched is the size in force, and a start that is known without measuring is the one latched. -/
theorem latchNumCtxFor_spec (sizes : Sizes) (server model : Text) (fit : Option Nat) :
    let latched := latchNumCtxFor sizes server model (startNumCtx setup server fit)
    (∀ size, sizes.known setup (ctxLatchKey server model) = some size → latched.2 = size) ∧
      latched.1.known setup (ctxLatchKey server model) = some latched.2 ∧
      ∀ key, key ≠ ctxLatchKey server model → latched.1.find key = sizes.find key := by
  intro latched
  cases hfind : sizes.find (ctxLatchKey server model) with
  | some size =>
    have heq : latched = (sizes, size) := by simp [latched, latchNumCtxFor, hfind]
    have hknown : sizes.known setup (ctxLatchKey server model) = some size := by simp [Sizes.known, hfind]
    rw [heq]
    refine ⟨fun size' h => ?_, hknown, fun _ _ => rfl⟩
    rw [hknown] at h
    exact Option.some.inj h
  | none =>
    have heq : latched = (sizes.set (ctxLatchKey server model) (startNumCtx setup server fit),
        startNumCtx setup server fit) := by simp [latched, latchNumCtxFor, hfind]
    rw [heq]
    refine ⟨fun size h => ?_, ?_, fun key hkey => ?_⟩
    · rw [Sizes.known, hfind, Option.none_or] at h
      exact startNumCtx_of_unmeasured fit h
    · rw [known_set, if_pos rfl]
    · rw [Dict.find_set, if_neg (Ne.symm hkey)]

theorem Kept.step {s t : Latches} {act : LatchAct} (h : Kept setup s) (hstep : s.step setup act = some t) :
    Kept setup t := by
  have hnone : ∀ {e : LatchEvent}, e.kind = .read ∨ e.kind = .sent → e.Valid ∧ e.before = e.size := by
    rintro ⟨key, kind, size⟩ (hkind | hkind) <;> obtain rfl : kind = _ := hkind <;>
      exact ⟨(by rintro _ _ ⟨⟩), rfl⟩
  cases act with
  | read server model =>
    simp only [Latches.step] at hstep
    split at hstep
    · rename_i size hknown
      cases hstep
      obtain ⟨hvalid, hbefore⟩ := hnone (e := ⟨ctxLatchKey server model, .read, size⟩) (.inl rfl)
      refine h.push (fun size' hsize' => ?_) hvalid hknown fun _ _ => rfl
      rw [hbefore]
      exact Option.some.inj (hknown.symm.trans hsize')
    · cases hstep
      exact h
  | request server model explicit =>
    simp only [Latches.step] at hstep
    split at hstep
    · cases hstep
      exact h
    · rename_i latched hfind
      cases hstep
      have hknown : s.sizes.known setup (ctxLatchKey server model) = some latched := by simp [Sizes.known, hfind]
      obtain ⟨hvalid, hbefore⟩ := hnone (e := ⟨ctxLatchKey server model, .sent, latched⟩) (.inr rfl)
      refine h.push (fun size' hsize' => ?_) hvalid hknown fun _ _ => rfl
      rw [hbefore]
      exact Option.some.inj (hknown.symm.trans hsize')
    · cases hstep
      exact ⟨h.ladder, h.latest, h.unlatched⟩
  | measured i fit =>
    simp only [Latches.step] at hstep
    split at hstep
    · cases hstep
    · rename_i server model hpending
      cases hstep
      obtain ⟨hjoined, hknown, hother⟩ := latchNumCtxFor_spec setup s.sizes server model fit
      have h' : Kept setup { s with measuring := s.measuring.eraseIdx i } := ⟨h.ladder, h.latest, h.unlatched⟩
      exact h'.push (fun size hsize => hjoined size hsize) (hnone (.inr rfl)).1 hknown hother
  | demote server model minViableCtx =>
    simp only [Latches.step, demoteContext] at hstep
    split_ifs at hstep with hfloor
    · cases hstep
      exact h
    · cases hstep
      have hlt := not_le.mp hfloor
      obtain ⟨hle, hfalls, hrung⟩ := nextRung_spec hlt
      refine h.push (fun size hsize => ?_) ?_ (by rw [known_set, if_pos rfl]) fun key hkey => by
        rw [Dict.find_set, if_neg (Ne.symm hkey)]
      · show demotedFrom setup s.sizes server model = size
        rw [demotedFrom, knownNumCtx, hsize, Option.getD_some]
      · rintro before floor ⟨⟩
        exact ⟨hlt, hle, hfalls, hrung⟩

/-! ## Rungs -/

/-- One rung for each demotion. -/
theorem Ladder.stepsDown {floor : Nat} : ∀ {events : List LatchEvent}, Ladder events →
    (∀ e ∈ events, ∀ before f, e.kind = .demoted before f → f = floor) →
    ∀ first ∈ events.getLast?, ∀ last ∈ events.head?,
      StepsDown floor (events.countP (·.isDemotion)) first.before last.size := by
  -- one event stays where it is or takes one step
  have hone : ∀ {e : LatchEvent} {k a : Nat}, e.Valid → (∀ before f, e.kind = .demoted before f → f = floor) →
      StepsDown floor k a e.before → StepsDown floor (k + e.isDemotion.toNat) a e.size := by
    rintro ⟨key, kind, size⟩ k a hvalid hfloor h
    cases kind with
    | demoted before f =>
      obtain rfl := hfloor before f rfl
      obtain ⟨hlt, -, -, hrung⟩ := hvalid before f rfl
      exact h.step hlt hrung
    | _ => exact h
  intro events
  induction events with
  | nil => exact fun _ _ _ h => nomatch h
  | cons e events ih =>
    intro h hfloor first hfirst last hlast
    obtain rfl : e = last := Option.some.inj hlast
    have hvalid := h.valid e List.mem_cons_self
    have hfloors := hfloor e List.mem_cons_self
    rw [List.countP_cons]
    have htoNat : (if e.isDemotion = true then 1 else 0) = e.isDemotion.toNat := by cases e.isDemotion <;> rfl
    rw [htoNat]
    apply hone hvalid hfloors
    cases events with
    | nil =>
      obtain rfl : e = first := Option.some.inj hfirst
      exact .refl _
    | cons prev events =>
      obtain ⟨hjoin, hchain⟩ := List.isChain_cons_cons.mp h.joined
      rw [hjoin]
      rw [List.getLast?_cons_cons] at hfirst
      exact ih ⟨hchain, fun e he => h.valid e (List.mem_cons_of_mem _ he)⟩
        (fun e he => hfloor e (List.mem_cons_of_mem _ he)) first hfirst prev rfl

/-- **Main result.** However requests, readers and demotions interleave, the windows read, the sizes sent and the
demotions of a model on a server form one ladder that ends at the size in force; and there are fewer demotions to one
floor than `1 + log (first / floor)` to the base 4/3. -/
theorem latch_ladder (setup : Setup) (acts : List LatchAct) (s : Latches) (h : run setup acts = some s) (key : Key) :
    Ladder (s.events key) ∧ (∀ e ∈ (s.events key).head?, s.sizes.known setup key = some e.size) ∧
      ∀ floor n, (∀ e ∈ s.events key, ∀ before f, e.kind = .demoted before f → f = floor) →
        (s.events key).countP (·.isDemotion) = n + 1 →
          ∀ first ∈ (s.events key).getLast?, 4 ^ n * floor < 3 ^ n * first.before := by
  have hkept : Kept setup s := (Moves.of_acts h).invariant (fun _ hstep hs => hs.step hstep) Kept.empty
  refine ⟨hkept.ladder key, hkept.latest key, fun floor n hfloor hcount first hfirst => ?_⟩
  obtain ⟨last, hlast⟩ : ∃ last, (s.events key).head? = some last := by
    cases hevents : s.events key with
    | nil =>
      rw [hevents] at hcount
      cases hcount
    | cons e events => exact ⟨e, rfl⟩
  have hsteps := (hkept.ladder key).stepsDown hfloor first hfirst last hlast
  rw [hcount] at hsteps
  exact hsteps.bound

def sampleSetup : Setup := ⟨none, fun server => server = "http://localhost:11434".toList⟩

/-- Two requests measure at once; the second takes the size of the first, and a fault steps it down. -/
def sampleRace : List LatchAct :=
  let server := "http://localhost:11434".toList
  [.request server "ollama/m".toList none, .request server "m".toList none, .measured 0 (some 8192),
    .measured 0 (some 4096), .demote server "ollama/m".toList (some 4300), .request server "m".toList none]

theorem latch_ladder_race : ∃ s, run sampleSetup sampleRace = some s ∧
    (s.events (ctxLatchKey "http://localhost:11434".toList "m".toList)).map (·.size) = [6144, 6144, 8192, 8192] ∧
      Ladder (s.events (ctxLatchKey "http://localhost:11434".toList "m".toList)) := by
  let s : Latches := (run sampleSetup sampleRace).get (by decide)
  have h : run sampleSetup sampleRace = some s := (Option.some_get _).symm
  exact ⟨s, h, by decide, (latch_ladder sampleSetup sampleRace s h _).1⟩

/-! ## Without the server -/

/-- The smallest size latched for `model` on any server. -/
def smallestLatchedNumCtx (sizes : Sizes) (model : Text) : Option Nat :=
  ((sizes.rows.filter (·.1.2 = bareModel model)).map (·.2)).min?

/-- `reported`, lowered to `num_ctx` when there is one. -/
def clampWindow (reported : Nat) (numCtx : Option Nat) : Nat := numCtx.elim reported (min reported)

/-- The free function `effective_context_window`: the window all servers honour. -/
def effectiveContextWindow (sizes : Sizes) (model : Text) (reported : Nat) : Nat :=
  clampWindow reported (smallestLatchedNumCtx sizes model)

/-- `LlmClient::effective_context_window`: the window of one server. -/
def effectiveContextWindowOn (setup : Setup) (sizes : Sizes) (server model : Text) (reported : Nat) : Nat :=
  clampWindow reported (knownNumCtx setup sizes server model)

/-- A window budgeted without the server fits every server that has sized the model. -/
theorem effectiveContextWindow_le (sizes : Sizes) {server model : Text} {reported : Nat}
    (hlatched : (sizes.find (ctxLatchKey server model)).isSome) :
    effectiveContextWindow sizes model reported ≤ effectiveContextWindowOn setup sizes server model reported := by
  obtain ⟨size, hsize⟩ := Option.isSome_iff_exists.mp hlatched
  have hmem : size ∈ (sizes.rows.filter (·.1.2 = bareModel model)).map (·.2) :=
    List.mem_map.mpr ⟨(ctxLatchKey server model, size),
      List.mem_filter.mpr ⟨Dict.mem_rows.mpr hsize, by simp [ctxLatchKey]⟩, rfl⟩
  unfold effectiveContextWindow effectiveContextWindowOn knownNumCtx Sizes.known smallestLatchedNumCtx
  rw [hsize, Option.some_or]
  cases hmin : ((sizes.rows.filter (·.1.2 = bareModel model)).map (·.2)).min? with
  | none =>
    rw [List.min?_eq_none_iff.mp hmin] at hmem
    cases hmem
  | some least =>
    have hle : least ≤ size := (List.min?_eq_some_iff.mp hmin).2 size hmem
    show min reported least ≤ min reported size
    omega

end Nanna.Llm.ContextLatch
