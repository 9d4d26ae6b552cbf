import Nanna.Lib.Utf8Scan

/-!
# Network chunking is invisible

However the bytes of a text are cut, the decoder gives the text and ends with nothing carried, and a
reader that takes events out after each chunk finds the events of the whole text
(`chunking_invisible`). Bytes that are the front of no text make some push fail, however cut.

A push decodes the valid prefix of what was carried and the chunk, and carries what is left when that
is open (`push_of_open`); the carry is open at every moment, so the pushes decode the valid prefix of
the bytes read (`pushAll_spec`). An event found stays found when more text comes
(`extract_append`), so taking events out early changes nothing (`takeEvents_append`).
-/

namespace Nanna.Llm

open Nanna.Lib Nanna.Lib.Text

/-- The bytes of a character that the last chunk left incomplete. -/
structure Utf8StreamDecoder where
  carry : List UInt8 := []
  deriving DecidableEq

/-- Decode a chunk after what the one before left incomplete. -/
def Utf8StreamDecoder.push (decoder : Utf8StreamDecoder) (chunk : List UInt8) :
    Except Utf8Error (Text × Utf8StreamDecoder) :=
  let bytes := decoder.carry ++ chunk
  match fromUtf8 bytes with
  | .ok text => .ok (text, {})
  | .error error =>
    if error.errorLen.isNone then
      let complete := error.validUpTo
      match fromUtf8 (bytes.take complete) with
      | .ok text => .ok (text, ⟨bytes.drop complete⟩)
      | .error error => .error error
    else .error error

/-- The event before the first pair of newlines, and the buffer after it. -/
def extractSseEvent : Text → Option (Text × Text)
  | [] => none
  | '\n' :: '\n' :: rest => some ([], rest)
  | c :: rest => (extractSseEvent rest).map fun (event, rest) => (c :: event, rest)

theorem length_extract {buffer event rest : Text} (h : extractSseEvent buffer = some (event, rest)) :
    rest.length < buffer.length := by
  induction buffer using extractSseEvent.induct generalizing event with
  | case1 => cases h
  | case2 rest' =>
    cases h
    exact Nat.lt_succ_of_lt (Nat.lt_succ_self _)
  | case3 c rest' hpair ih =>
    rw [extractSseEvent] at h
    · obtain ⟨⟨event', rest''⟩, hrest, heq⟩ := Option.map_eq_some_iff.mp h
      cases heq
      exact Nat.lt_succ_of_lt (ih hrest)
    · exact hpair

/-- Take every complete event out of the buffer. -/
def takeEvents (buffer : Text) : List Text × Text :=
  match _h : extractSseEvent buffer with
  | some (event, rest) => (event :: (takeEvents rest).1, (takeEvents rest).2)
  | none => ([], buffer)
termination_by buffer.length
decreasing_by all_goals exact length_extract _h

/-- What a stream reader keeps between chunks. -/
structure Reader where
  decoder : Utf8StreamDecoder := {}
  buffer : Text := []
  deriving DecidableEq

/-- One chunk: decode it, and take the events out. -/
def Reader.read (reader : Reader) (chunk : List UInt8) :
    Except Utf8Error (List Text × Reader) :=
  match reader.decoder.push chunk with
  | .error error => .error error
  | .ok (text, decoder) =>
    let (events, buffer) := takeEvents (reader.buffer ++ text)
    .ok (events, ⟨decoder, buffer⟩)

/-- The text of a sequence of chunks. -/
def Utf8StreamDecoder.pushAll (decoder : Utf8StreamDecoder) :
    List (List UInt8) → Except Utf8Error (Text × Utf8StreamDecoder)
  | [] => .ok ([], decoder)
  | chunk :: chunks =>
    match decoder.push chunk with
    | .error error => .error error
    | .ok (text, decoder) =>
      (decoder.pushAll chunks).map fun (rest, decoder) => (text ++ rest, decoder)

/-- The events of a sequence of chunks. -/
def Reader.readAll (reader : Reader) :
    List (List UInt8) → Except Utf8Error (List Text × Reader)
  | [] => .ok ([], reader)
  | chunk :: chunks =>
    match reader.read chunk with
    | .error error => .error error
    | .ok (events, reader) =>
      (reader.readAll chunks).map fun (rest, reader) => (events ++ rest, reader)

/-! ## Decoding -/

variable {decoder : Utf8StreamDecoder} {chunk tail : List UInt8} {chunks : List (List UInt8)} {t : Text}

theorem validPrefix_append_open (h : IsOpen tail) : validPrefix (asBytes t ++ tail) = (t, tail) := by
  rw [validPrefix_append, h.validPrefix, List.append_nil]

theorem fromUtf8_of_incomplete (hopen : IsOpen tail) (hne : tail ≠ []) :
    fromUtf8 (asBytes t ++ tail) = .error ⟨(asBytes t).length, none⟩ := by
  have hincomplete := hopen.resolve_left (mt scanChar_eq_empty.mp hne)
  simp only [fromUtf8, validPrefix_append_open hopen, hincomplete, List.length_append,
    Nat.add_sub_cancel]

/-- A push gives the characters that are complete and carries the rest. -/
theorem push_of_open (hbytes : decoder.carry ++ chunk = asBytes t ++ tail) (hopen : IsOpen tail) :
    decoder.push chunk = .ok (t, ⟨tail⟩) := by
  by_cases hne : tail = []
  · rw [Utf8StreamDecoder.push, hbytes, hne, List.append_nil, fromUtf8_asBytes]
  · rw [Utf8StreamDecoder.push, hbytes, fromUtf8_of_incomplete hopen hne]
    simp only [Option.isNone_none, if_true, List.take_left, List.drop_left, fromUtf8_asBytes]

theorem push_of_invalid (h : ¬ IsOpen (validPrefix (decoder.carry ++ chunk)).2) :
    ∃ error, decoder.push chunk = .error error := by
  obtain ⟨n, hinvalid⟩ := (isOpen_or_invalid _).resolve_left h
  have htail := hinvalid []
  rw [List.append_nil] at htail
  simp only [Utf8StreamDecoder.push, fromUtf8, htail]
  exact ⟨_, rfl⟩

/-- What a push leaves to be decoded. -/
theorem validPrefix_carry (more : List UInt8) :
    validPrefix (decoder.carry ++ chunk ++ more) =
      ((validPrefix (decoder.carry ++ chunk)).1 ++
          (validPrefix ((validPrefix (decoder.carry ++ chunk)).2 ++ more)).1,
        (validPrefix ((validPrefix (decoder.carry ++ chunk)).2 ++ more)).2) := by
  conv_lhs => rw [(validPrefix_spec (decoder.carry ++ chunk)).1, List.append_assoc, validPrefix_append]

/-- The pushes decode the valid prefix of the bytes read. -/
theorem pushAll_of_open (hcarry : IsOpen decoder.carry)
    (h : IsOpen (validPrefix (decoder.carry ++ chunks.flatten)).2) :
    decoder.pushAll chunks = .ok ((validPrefix (decoder.carry ++ chunks.flatten)).1,
      ⟨(validPrefix (decoder.carry ++ chunks.flatten)).2⟩) := by
  induction chunks generalizing decoder with
  | nil =>
    rw [List.flatten_nil, List.append_nil, hcarry.validPrefix]
    rfl
  | cons chunk chunks ih =>
    rw [List.flatten_cons, ← List.append_assoc] at h ⊢
    by_cases hopen : IsOpen (validPrefix (decoder.carry ++ chunk)).2
    · rw [validPrefix_carry] at h ⊢
      rw [Utf8StreamDecoder.pushAll, push_of_open (validPrefix_spec _).1 hopen]
      simp only [@ih ⟨_⟩ hopen h, Except.map]
    · obtain ⟨more, t, htext⟩ := prefix_of_isOpen h
      rw [List.append_assoc] at htext
      exact absurd htext (not_prefix_of_invalid hopen)

theorem pushAll_of_invalid (hcarry : IsOpen decoder.carry)
    (h : ¬ IsOpen (validPrefix (decoder.carry ++ chunks.flatten)).2) :
    ∃ error, decoder.pushAll chunks = .error error := by
  induction chunks generalizing decoder with
  | nil =>
    rw [List.flatten_nil, List.append_nil, hcarry.validPrefix] at h
    exact absurd hcarry h
  | cons chunk chunks ih =>
    rw [List.flatten_cons, ← List.append_assoc] at h
    by_cases hopen : IsOpen (validPrefix (decoder.carry ++ chunk)).2
    · rw [validPrefix_carry] at h
      obtain ⟨error, herror⟩ := @ih ⟨_⟩ hopen h
      refine ⟨error, ?_⟩
      rw [Utf8StreamDecoder.pushAll, push_of_open (validPrefix_spec _).1 hopen]
      simp only [herror, Except.map]
    · obtain ⟨error, herror⟩ := push_of_invalid hopen
      refine ⟨error, ?_⟩
      rw [Utf8StreamDecoder.pushAll, herror]

/-! ## Events -/

variable {buffer event rest more : Text}

theorem extract_append (h : extractSseEvent buffer = some (event, rest)) :
    extractSseEvent (buffer ++ more) = some (event, rest ++ more) := by
  induction buffer using extractSseEvent.induct generalizing event with
  | case1 => cases h
  | case2 rest' =>
    cases h
    rfl
  | case3 c rest' hpair ih =>
    rw [extractSseEvent] at h
    · obtain ⟨⟨event', rest''⟩, hrest, heq⟩ := Option.map_eq_some_iff.mp h
      cases heq
      rw [List.cons_append, extractSseEvent, ih hrest]
      · rfl
      · rintro rest₂ rfl hcons
        cases rest' with
        | nil => cases hrest
        | cons d rest' =>
          cases hcons
          exact hpair rest' rfl rfl
    · exact hpair

theorem takeEvents_of_some (h : extractSseEvent buffer = some (event, rest)) :
    takeEvents buffer = (event :: (takeEvents rest).1, (takeEvents rest).2) := by
  rw [takeEvents]
  split
  · rename_i h'
    cases h.symm.trans h'
    rfl
  · rename_i h'
    cases h.symm.trans h'

theorem takeEvents_of_none (h : extractSseEvent buffer = none) : takeEvents buffer = ([], buffer) := by
  rw [takeEvents]
  split
  · rename_i h'
    cases h.symm.trans h'
  · rfl

/-- Events taken early are the events of the whole. -/
theorem takeEvents_append (buffer more : Text) : takeEvents (buffer ++ more) =
    ((takeEvents buffer).1 ++ (takeEvents ((takeEvents buffer).2 ++ more)).1,
      (takeEvents ((takeEvents buffer).2 ++ more)).2) := by
  induction buffer using takeEvents.induct with
  | case1 buffer event rest h ih =>
    rw [takeEvents_of_some h, takeEvents_of_some (extract_append h), ih]
    rfl
  | case2 buffer h =>
    rw [takeEvents_of_none h]
    rfl

/-- The remainder holds no event. -/
theorem extract_takeEvents (buffer : Text) : extractSseEvent (takeEvents buffer).2 = none := by
  induction buffer using takeEvents.induct with
  | case1 buffer event rest h ih =>
    rw [takeEvents_of_some h]
    exact ih
  | case2 buffer h =>
    rw [takeEvents_of_none h]
    exact h

/-- A reader finds the events of the text that its decoder gives. -/
theorem readAll_of_pushAll {reader : Reader} (hbuffer : extractSseEvent reader.buffer = none)
    (h : reader.decoder.pushAll chunks = .ok (t, decoder)) :
    reader.readAll chunks = .ok ((takeEvents (reader.buffer ++ t)).1,
      ⟨decoder, (takeEvents (reader.buffer ++ t)).2⟩) := by
  induction chunks generalizing reader t with
  | nil =>
    cases h
    rw [List.append_nil, takeEvents_of_none hbuffer]
    rfl
  | cons chunk chunks ih =>
    rw [Utf8StreamDecoder.pushAll] at h
    split at h
    · cases h
    · rename_i text decoder' hpush
      cases hrest : decoder'.pushAll chunks with
      | error error =>
        rw [hrest] at h
        cases h
      | ok result =>
        rw [hrest] at h
        cases h
        rw [Reader.readAll, Reader.read, hpush]
        simp only []
        rw [@ih _ ⟨_, _⟩ (extract_takeEvents _) hrest, ← List.append_assoc,
          takeEvents_append (reader.buffer ++ text)]
        rfl

/-! ## The main result -/

theorem pushAll_asBytes (h : chunks.flatten = asBytes t) :
    ({} : Utf8StreamDecoder).pushAll chunks = .ok (t, {}) := by
  have hstart : validPrefix (([] : List UInt8) ++ chunks.flatten) = (t, []) := by
    rw [List.nil_append, h, validPrefix_asBytes]
  have hopen : IsOpen (validPrefix (([] : List UInt8) ++ chunks.flatten)).2 := by
    rw [hstart]
    exact isOpen_nil
  have hpush := @pushAll_of_open ⟨[]⟩ chunks isOpen_nil hopen
  rwa [hstart] at hpush

/-- **Main result.** However a text is cut into chunks, the pushes give it, nothing is carried at the
end and at most three bytes on the way, and the events are those of the whole text; bytes that no
continuation makes a text fail however they are cut. -/
theorem chunking_invisible (chunks : List (List UInt8)) :
    (∀ t, chunks.flatten = asBytes t →
      ({} : Utf8StreamDecoder).pushAll chunks = .ok (t, {}) ∧
      ({} : Reader).readAll chunks = .ok ((takeEvents t).1, ⟨{}, (takeEvents t).2⟩) ∧
      ∀ pre post, chunks = pre ++ post → ∃ text decoder,
        ({} : Utf8StreamDecoder).pushAll pre = .ok (text, decoder) ∧ decoder.carry.length ≤ 3) ∧
    ((∀ more t, chunks.flatten ++ more ≠ asBytes t) →
      ∃ error, ({} : Utf8StreamDecoder).pushAll chunks = .error error) := by
  refine ⟨fun t h => ⟨pushAll_asBytes h, readAll_of_pushAll rfl (pushAll_asBytes h), ?_⟩,
    fun h => ?_⟩
  · rintro pre post rfl
    have hopen : IsOpen (validPrefix ([] ++ pre.flatten)).2 := by
      rw [List.nil_append, isOpen_iff_prefix]
      exact ⟨post.flatten, t, by rw [← List.flatten_append, h]⟩
    exact ⟨_, _, @pushAll_of_open ⟨[]⟩ pre isOpen_nil hopen, hopen.length_le⟩
  · refine @pushAll_of_invalid ⟨[]⟩ chunks isOpen_nil fun hopen => ?_
    obtain ⟨more, t, htext⟩ := isOpen_iff_prefix.mp hopen
    exact h more t htext

/-- An accented letter cut in two, and a lead byte that a bracket follows. -/
theorem chunking_invisible_accent :
    ({} : Utf8StreamDecoder).pushAll [[0xC3], [], [0xA9]] = .ok (['é'], {}) ∧
    ∃ error, ({} : Utf8StreamDecoder).pushAll [[0xC3], [0x28]] = .error error := by
  refine ⟨((chunking_invisible [[0xC3], [], [0xA9]]).1 ['é'] (by decide)).1,
    (chunking_invisible [[0xC3], [0x28]]).2 fun more t => not_prefix_of_invalid ?_⟩
  have hscan : scanChar [[0xC3], [0x28]].flatten = .invalid 1 := by decide
  rw [validPrefix_of_stop fun c rest h => nomatch hscan.symm.trans h]
  rintro (h | h)
  · cases hscan.symm.trans h
  · cases hscan.symm.trans h

end Nanna.Llm
