import Mathlib.Data.List.Sort
import Nanna.Agent.ToolMemory
import Nanna.Lib.Delimited
import Nanna.Memory.Types

/-!
# Reading a memory by its handle

`stored_result_read_back`: the pages of a stored tool result, read one after the other, join to its rows in
the order they were cut, each with its header, whatever else the store holds and in whatever order it lists
its rows; where a cycle has taken rows away and at least two are left, a notice says how many are missing.

`memory.get` resolves the handle, assembles the rows that share its source and cuts one page out of them.
-/

namespace Nanna.Daemon

open Nanna.Lib Nanna.Lib.Text Nanna.Memory Nanna.Agent

variable {F : Type}

/-! ## The handle -/

/-- A comma-separated list of ids names this one. -/
def listsId (ids : Option String) (needle : String) : Bool :=
  ids.any fun ids => (ids.toList.splitOn ',').any fun s => trim s = needle.toList

/-- `direct`: the row with this id, else the first one of this source. -/
def directRow (all : List (MemoryEntry F)) (needle : String) : Option (MemoryEntry F) :=
  (all.find? (·.id = needle)).or (all.find? (·.metadata "source_id" = some needle))

/-- The row that says it absorbed this id. -/
def successorRow (all : List (MemoryEntry F)) (needle : String) : Option (MemoryEntry F) :=
  all.find? fun e => listsId (e.metadata "consolidated_from") needle || listsId (e.metadata "sources") needle

/-- The walk along the consolidation trail. -/
def forwardFrom (all : List (MemoryEntry F)) : Nat → String → Option (MemoryEntry F)
  | 0, _ => none
  | hops + 1, needle =>
    match successorRow all needle with
    | none => none
    | some entry =>
      match directRow all entry.id with
      | some found => some found
      | none => forwardFrom all hops entry.id

def maxForwardHops : Nat := 8

def unknownHandle (handle : String) : String :=
  s!"no memory matches handle '{handle}'. It was not found directly, and nothing in the store lists it " ++
    "as a source, so it was not consolidated into another memory either — it may predate this store or have been deleted outright."

def resolveMemoryHandle (all : List (MemoryEntry F)) (handle : String) : Except String (MemoryEntry F) :=
  match (directRow all handle).or (forwardFrom all maxForwardHops handle) with
  | some entry => .ok entry
  | none =>
    match all.find? fun e => handle.toList.isPrefixOf e.id.toList with
    | some entry => .ok entry
    | none => .error (unknownHandle handle)

/-! ## The text behind it -/

/-- The position in a mark `"i/N"`. -/
def chunkIndex (entry : MemoryEntry F) : Nat :=
  ((entry.metadata "chunk").bind fun mark => ((mark.toList.splitOn '/').head?).bind (parseUnsigned (2 ^ 64))).getD 1

/-- The count in a mark `"i/N"`. -/
def chunkTotal (entry : MemoryEntry F) : Option Nat :=
  (entry.metadata "chunk").bind fun mark => ((mark.toList.splitOn '/')[1]?).bind (parseUnsigned (2 ^ 64))

/-- The notice that rows are missing. -/
def missingNotice (found expected : Nat) : Text :=
  "\n\n[SYSTEM: ".toList ++ Nat.toDigits 10 found ++ " of ".toList ++ Nat.toDigits 10 expected ++
    " stored chunks were reassembled — ".toList ++ Nat.toDigits 10 (expected - found) ++
      (" are no longer in the store as separate rows, most likely folded into a consolidated memory by a " ++
        "dream cycle. What is above is complete for the chunks that remain, and the artifact itself is unaffected: read " ++
        "it back off disk if you need the whole thing.]").toList

def assembleHandleContent (all : List (MemoryEntry F)) (entry : MemoryEntry F) : Text :=
  match entry.metadata "source_id" with
  | none => entry.content
  | some sourceId =>
    let rows := all.filter (·.metadata "source_id" = some sourceId)
    if rows.length ≤ 1 then entry.content
    else
      let expected := rows.foldl (fun count row => max count ((chunkTotal row).getD 0)) 0
      let chunks := rows.insertionSort fun a b => chunkIndex a ≤ chunkIndex b
      let assembled := ['\n'].intercalate (chunks.map (·.content))
      if rows.length < expected then assembled ++ missingNotice rows.length expected else assembled

/-! ## Pages -/

structure Page where
  content : Text
  offset : Nat
  returned : Nat
  total : Nat
  truncated : Bool

def handlePageRange (content : Text) (offset limit : Nat) : Nat × Nat :=
  let start := min offset (byteLen content)
  (snapUp content start, snapUp content (min (start + limit) (byteLen content)))

/-- One page of the text; there is no value where the slice panics. -/
def handlePage (content : Text) (offset limit : Nat) : Option Page :=
  let (s, e) := handlePageRange content offset limit
  (sliceBytes content s e).map fun page =>
    { content := page, offset := s, returned := e - s, total := byteLen content, truncated := e < byteLen content }

/-- The rows that a handle's text was assembled from. -/
def servedRowIds (all : List (MemoryEntry F)) (entry : MemoryEntry F) : List String :=
  match entry.metadata "source_id" with
  | none => [entry.id]
  | some sourceId =>
    let ids := (all.filter (·.metadata "source_id" = some sourceId)).map (·.id)
    if ids.isEmpty then [entry.id] else ids

/-- The rows that a page credits: only the first page of a reading does. -/
def recallFeedback (offset : Nat) (servedIds : List String) : List String := if 0 < offset then [] else servedIds

inductive ReadFailure
  | refused (message : String)
  | panic

/-- The answer of `memory.get`, and the rows that it credits. -/
structure HandleReading where
  id : String
  page : Page
  forwardedFrom : Option String
  note : Option String
  credited : List String

def forwardNote (handle id : String) : String :=
  s!"'{handle}' was consolidated during dreaming; this is the memory that absorbed it ({id}). " ++
    "The original text was generalised into this one, not deleted."

/-- `memory.get` once its parameters are read. -/
def memoryGet (all : List (MemoryEntry F)) (handle : String) (offset limit : Nat) : Except ReadFailure HandleReading :=
  match resolveMemoryHandle all handle with
  | .error message => .error (.refused message)
  | .ok entry =>
    match handlePage (assembleHandleContent all entry) offset limit with
    | none => .error .panic
    | some page =>
      let forwarded := entry.id ≠ handle && entry.metadata "source_id" ≠ some handle
      .ok { id := entry.id
            page := page
            forwardedFrom := if forwarded then some handle else none
            note := if forwarded then some (forwardNote handle entry.id) else none
            credited := recallFeedback offset (servedRowIds all entry) }

/-- Pages read one after the other, as long as one says that there is more. -/
def readPages (all : List (MemoryEntry F)) (handle : String) (limit : Nat) : Nat → Nat → Option (List HandleReading)
  | 0, _ => none
  | fuel + 1, offset =>
    match memoryGet all handle offset limit with
    | .error _ => none
    | .ok reading =>
      if reading.page.truncated then
        (readPages all handle limit fuel (reading.page.offset + reading.page.returned)).map (reading :: ·)
      else some [reading]

variable {all : List (MemoryEntry F)} {entry : MemoryEntry F} {handle sourceId : String} {content : Text}
  {offset limit : Nat}

/-! ## Reading on -/

theorem handlePage_spec (hoffset : IsBoundary offset content) (limit : Nat) : ∃ page stop,
    handlePage content offset limit = some page ∧ sliceBytes content offset stop = some page.content ∧
      IsBoundary stop content ∧ page.offset + page.returned = stop ∧ offset ≤ stop ∧
      min (offset + limit) (byteLen content) ≤ stop ∧ page.truncated = decide (stop < byteLen content) := by
  have hle := hoffset.le
  obtain ⟨hstop, hlow, -, -⟩ := snapUp_spec (Nat.min_le_right (offset + limit) (byteLen content))
  have hafter : offset ≤ snapUp content (min (offset + limit) (byteLen content)) := by omega
  generalize hend : snapUp content (min (offset + limit) (byteLen content)) = stop at hstop hlow hafter
  obtain ⟨piece, hpiece, -, -⟩ := sliceBytes_eq hoffset hstop hafter
  refine ⟨⟨piece, offset, stop - offset, byteLen content, decide (stop < byteLen content)⟩, stop, ?_, hpiece, hstop,
    Nat.add_sub_of_le hafter, hafter, hlow, rfl⟩
  unfold handlePage handlePageRange
  simp [Nat.min_eq_left hle, snapUp_boundary hoffset, hend, hpiece]

/-- Every page follows the one before, until the text is out; none but the page at the start credits a row. -/
theorem readPages_spec (hresolve : resolveMemoryHandle all handle = .ok entry) (hlimit : 0 < limit) :
    ∀ {fuel offset : Nat}, IsBoundary offset (assembleHandleContent all entry) →
      byteLen (assembleHandleContent all entry) < offset + fuel →
        ∃ readings, readPages all handle limit fuel offset = some readings ∧
          sliceBytes (assembleHandleContent all entry) offset (byteLen (assembleHandleContent all entry)) =
            some (readings.map (·.page.content)).flatten ∧
          (readings.map (·.credited)).flatten = recallFeedback offset (servedRowIds all entry) := by
  intro fuel
  induction fuel with
  | zero =>
    intro offset hoffset hfuel
    have := hoffset.le
    omega
  | succ fuel ih =>
    intro offset hoffset hfuel
    obtain ⟨page, stop, hpage, hslice, hstop, hnext, hafter, hlow, htruncated⟩ := handlePage_spec hoffset limit
    obtain ⟨reading, hget, rfl, hcredited⟩ : ∃ reading, memoryGet all handle offset limit = .ok reading ∧
        reading.page = page ∧ reading.credited = recallFeedback offset (servedRowIds all entry) := by
      unfold memoryGet
      simp only [hresolve, hpage]
      exact ⟨_, rfl, rfl, rfl⟩
    by_cases hmore : stop < byteLen (assembleHandleContent all entry)
    · obtain ⟨readings, hreadings, hrest, hlater⟩ := ih hstop (by omega)
      refine ⟨reading :: readings, ?_, ?_, ?_⟩
      · rw [readPages, hget]
        simp only [htruncated, hmore, decide_true, if_true, hnext, hreadings, Option.map_some]
      · rw [List.map_cons, List.flatten_cons]
        exact sliceBytes_join hoffset hstop (.self _) hafter hmore.le hslice hrest
      · rw [List.map_cons, List.flatten_cons, hcredited, hlater]
        -- the page before it was not empty
        have hpos : 0 < stop := by omega
        simp [recallFeedback, hpos]
    · have hend : stop = byteLen (assembleHandleContent all entry) := by
        have := hstop.le
        omega
      refine ⟨[reading], ?_, ?_, ?_⟩
      · rw [readPages, hget]
        simp [htruncated, hmore]
      · rw [← hend, hslice]
        simp
      · simpa using hcredited

/-! ## The rows of a result -/

/-- The rows of the store with this source are the rows of these chunks, in some order. -/
def Stored (all : List (MemoryEntry F)) (call : ToolCallInfo) (total : Nat) (kept : List (Text × Nat)) : Prop :=
  ∃ rowOf : Text × Nat → MemoryEntry F,
    (all.filter (·.metadata "source_id" = some (String.ofList call.sourceId))).Perm (kept.map rowOf) ∧
      ∀ chunk ∈ kept, (rowOf chunk).content = (call.row total chunk).content ∧
        ∀ key value, (call.row total chunk).tags key = some value →
          (rowOf chunk).metadata key = some (String.ofList value)

variable {call : ToolCallInfo} {total : Nat} {kept : List (Text × Nat)}

theorem splitOn_chunkMark (position total : Nat) :
    (chunkMark position total).splitOn '/' = [Nat.toDigits 10 position, Nat.toDigits 10 total] := by
  have hslash : ∀ n, ∀ c ∈ Nat.toDigits 10 n, ¬c = '/' := by
    intro n c hc heq
    have hdigit := isDigit_toDigits hc
    rw [heq] at hdigit
    exact absurd hdigit (by decide)
  have hsplit := splitOnP_intercalate (p := (· == '/')) (a := '/') (by decide)
    (List.cons_ne_nil (Nat.toDigits 10 position) [Nat.toDigits 10 total])
    (by simpa using ⟨hslash position, hslash total⟩)
  simpa [List.splitOn, chunkMark] using hsplit

/-- A row's mark is read as it was written. -/
theorem chunk_read {position : Nat} (hmark : entry.metadata "chunk" = some (String.ofList (chunkMark position total)))
    (hposition : position < 2 ^ 64) (htotal : total < 2 ^ 64) :
    chunkIndex entry = position ∧ chunkTotal entry = some total := by
  unfold chunkIndex chunkTotal
  rw [hmark]
  simp only [Option.bind_some, String.toList_ofList, splitOn_chunkMark, List.head?_cons, List.getElem?_cons_succ,
    List.getElem?_cons_zero, parseUnsigned_toDigits hposition, parseUnsigned_toDigits htotal, Option.getD_some,
    and_self]

/-- Sorting finds the one order in which the keys grow. -/
theorem insertionSort_eq_of_perm {α : Type} {key : α → Nat} {l sorted : List α} (hperm : l.Perm sorted)
    (hsorted : sorted.Pairwise fun a b => key a < key b) :
    l.insertionSort (fun a b => key a ≤ key b) = sorted := by
  have : Std.Total fun a b => key a ≤ key b := ⟨fun a b => Nat.le_total (key a) (key b)⟩
  have : IsTrans α fun a b => key a ≤ key b := ⟨fun _ _ _ => Nat.le_trans⟩
  have hkeys : (sorted.map key).Nodup := List.pairwise_map.mpr (hsorted.imp Nat.ne_of_lt)
  have hinsert := List.pairwise_insertionSort (fun a b => key a ≤ key b) l
  refine List.Perm.eq_of_pairwise (fun a b ha hb hab hba => ?_) hinsert (hsorted.imp Nat.le_of_lt)
    ((List.perm_insertionSort _ l).trans hperm)
  have ha := hperm.mem_iff.mp ((List.mem_insertionSort _).mp ha)
  exact List.inj_on_of_nodup_map hkeys ha hb (Nat.le_antisymm hab hba)

theorem foldl_max_const {α : Type} {f : α → Nat} {l : List α} (h : ∀ a ∈ l, f a = total) (hne : l ≠ []) :
    l.foldl (fun count a => max count (f a)) 0 = total := by
  have hfold : ∀ {l : List α}, (∀ a ∈ l, f a = total) → ∀ count, count ≤ total → l ≠ [] →
      l.foldl (fun count a => max count (f a)) count = total := by
    intro l
    induction l with
    | nil => exact fun _ _ _ hne => absurd rfl hne
    | cons a l ih =>
      intro h count hcount _
      rw [List.foldl_cons, h a List.mem_cons_self, Nat.max_eq_right hcount]
      by_cases hl : l = []
      · rw [hl, List.foldl_nil]
      · exact ih (fun b hb => h b (List.mem_cons_of_mem _ hb)) total le_rfl hl
  exact hfold h 0 (Nat.zero_le _) hne

/-- What the rows of these chunks read as, as far as they are still there. -/
def readsAs (call : ToolCallInfo) (total : Nat) (kept : List (Text × Nat)) : Text :=
  ['\n'].intercalate (kept.map fun chunk => (call.row total chunk).content) ++
    if 1 < kept.length ∧ kept.length < total then missingNotice kept.length total else []

/-- The rows come back in the order they were cut, whatever their order in the store. -/
theorem assemble_stored (hstored : Stored all call total kept) (hsorted : kept.Pairwise fun a b => a.2 < b.2)
    (hkept : ∀ chunk ∈ kept, chunk.2 < total) (htotal : total < 2 ^ 64) (hentry : entry ∈ all)
    (hsource : entry.metadata "source_id" = some (String.ofList call.sourceId)) :
    assembleHandleContent all entry = readsAs call total kept := by
  obtain ⟨rowOf, hperm, hrows⟩ := hstored
  have hmem : entry ∈ all.filter (·.metadata "source_id" = some (String.ofList call.sourceId)) :=
    List.mem_filter.mpr ⟨hentry, by simpa using hsource⟩
  have hlength : (all.filter (·.metadata "source_id" = some (String.ofList call.sourceId))).length = kept.length := by
    rw [hperm.length_eq, List.length_map]
  have hmark : ∀ chunk ∈ kept, chunkIndex (rowOf chunk) = chunk.2 + 1 ∧ chunkTotal (rowOf chunk) = some total := by
    intro chunk hchunk
    have := hkept chunk hchunk
    exact chunk_read ((hrows chunk hchunk).2 "chunk" _ rfl) (by omega) htotal
  rw [assembleHandleContent, hsource, readsAs]
  dsimp only
  rw [hlength]
  by_cases hone : kept.length ≤ 1
  · -- the only row is the one the handle stands for
    obtain ⟨chunk, rfl⟩ : ∃ chunk, kept = [chunk] := by
      refine List.length_eq_one_iff.mp ?_
      have := List.length_pos_of_mem hmem
      omega
    have hrow : entry = rowOf chunk := by simpa using hperm.mem_iff.mp hmem
    have hcontent := (hrows chunk List.mem_cons_self).1
    simp [hrow, hcontent]
  · have hexpected : (all.filter (·.metadata "source_id" = some (String.ofList call.sourceId))).foldl
        (fun count row => max count ((chunkTotal row).getD 0)) 0 = total := by
      refine foldl_max_const (fun row hrow => ?_) (List.ne_nil_of_mem hmem)
      obtain ⟨chunk, hchunk, rfl⟩ := List.mem_map.mp (hperm.mem_iff.mp hrow)
      rw [(hmark chunk hchunk).2, Option.getD_some]
    have hcontents : (kept.map rowOf).map (·.content) = kept.map fun chunk => (call.row total chunk).content := by
      rw [List.map_map]
      exact List.map_congr_left fun chunk hchunk => (hrows chunk hchunk).1
    have horder : (kept.map rowOf).Pairwise fun a b => chunkIndex a < chunkIndex b := by
      refine List.pairwise_map.mpr (hsorted.imp_of_mem fun ha hb hlt => ?_)
      rw [(hmark _ ha).1, (hmark _ hb).1]
      omega
    rw [if_neg hone, hexpected, insertionSort_eq_of_perm hperm horder, hcontents]
    by_cases hmissing : kept.length < total
    · rw [if_pos hmissing, if_pos ⟨not_le.mp hone, hmissing⟩]
    · rw [if_neg hmissing, if_neg fun h => hmissing h.2, List.append_nil]

/-- The source of a result is a handle for one of its rows. -/
theorem resolve_source (hids : ∀ row ∈ all, row.id ≠ sourceId)
    (hrow : ∃ row ∈ all, row.metadata "source_id" = some sourceId) :
    ∃ entry ∈ all, resolveMemoryHandle all sourceId = .ok entry ∧ entry.metadata "source_id" = some sourceId := by
  have hid : all.find? (·.id = sourceId) = none := by simpa using hids
  obtain ⟨row, hmem, hsource⟩ := hrow
  obtain ⟨entry, hfind⟩ : ∃ entry, all.find? (·.metadata "source_id" = some sourceId) = some entry := by
    refine Option.isSome_iff_exists.mp (List.find?_isSome.mpr ⟨row, hmem, ?_⟩)
    simpa using hsource
  refine ⟨entry, List.mem_of_find?_eq_some hfind, ?_, by simpa using List.find?_some hfind⟩
  rw [resolveMemoryHandle, directRow, hid, hfind]
  rfl

/-- **Main result.** The pages of a stored result join to its rows in the order they were cut, and the rows hold
the whole collapsed result; the reading credits each row of the result once. -/
theorem stored_result_read_back (call : ToolCallInfo) (result : Text) (overlap : Nat) : ∃ spans chunks,
    ingestChunks result overlap = some chunks ∧
      Covers (collapseRepeatedLines result) (memoryChunkMaxChars + 3) 0 spans chunks ∧
        ∀ (all : List (MemoryEntry F)) (kept : List (Text × Nat)) (limit : Nat), kept.Sublist chunks.zipIdx →
          kept ≠ [] → chunks.length < 2 ^ 64 → Stored all call chunks.length kept →
            (∀ row ∈ all, row.id ≠ String.ofList call.sourceId) → 0 < limit →
              ∃ fuel readings, readPages all (String.ofList call.sourceId) limit fuel 0 = some readings ∧
                (readings.map (·.page.content)).flatten = readsAs call chunks.length kept ∧
                (readings.map (·.credited)).flatten =
                  (all.filter (·.metadata "source_id" = some (String.ofList call.sourceId))).map (·.id) := by
  obtain ⟨spans, chunks, hchunks, hcovers⟩ := ingestChunks_covers result overlap
  refine ⟨spans, chunks, hchunks, hcovers, fun all kept limit hsub hne htotal hstored hids hlimit => ?_⟩
  -- the rows that are left keep their positions
  have hzip : chunks.zipIdx.Pairwise fun a b => a.2 < b.2 := by
    refine List.pairwise_map.mp ?_
    rw [List.zipIdx_map_snd]
    exact List.pairwise_lt_range'
  have hkept : ∀ chunk ∈ kept, chunk.2 < chunks.length := fun chunk hchunk => by
    simpa using List.snd_lt_of_mem_zipIdx (hsub.subset hchunk)
  have ⟨rowOf, hperm, _⟩ := hstored
  obtain ⟨chunk, hchunk⟩ := List.exists_mem_of_ne_nil kept hne
  obtain ⟨hrow, hsource⟩ := List.mem_filter.mp (hperm.mem_iff.mpr (List.mem_map_of_mem hchunk))
  obtain ⟨entry, hentry, hresolve, hentrySource⟩ := resolve_source hids ⟨rowOf chunk, hrow, by simpa using hsource⟩
  have htext := assemble_stored hstored (hzip.sublist hsub) hkept htotal hentry hentrySource
  obtain ⟨readings, hreadings, hslice, hcredited⟩ := readPages_spec hresolve hlimit (IsBoundary.zero _)
    (Nat.lt_add_left 0 (Nat.lt_succ_self _))
  refine ⟨_, readings, hreadings, ?_, ?_⟩
  · rw [sliceBytes_full] at hslice
    exact (Option.some.inj hslice).symm.trans htext
  · have hrows : (all.filter (·.metadata "source_id" = some (String.ofList call.sourceId))).map (·.id) ≠ [] := by
      simpa using ⟨entry, hentry, hentrySource⟩
    rw [hcredited, recallFeedback, if_neg (Nat.lt_irrefl 0), servedRowIds, hentrySource]
    simp [List.isEmpty_eq_false_iff.mpr hrows]

/-- A call with a short result. -/
def builtCall : ToolCallInfo where
  name := "exec".toList
  target := none
  outcome := "ok".toList
  sourceId := "call-1".toList

/-- The entry of its only row. -/
def builtRow : MemoryEntry ℚ :=
  { sampleEntry "7f3a" "[exec — ok] built".toList [] "m" none with
    metadata := fun key => ((builtCall.row 1 ("built".toList, 0)).tags key).map String.ofList }

theorem stored_result_read_back_short : ∃ fuel readings,
    readPages [sampleEntry "90c1" "tea".toList [] "m" none, builtRow] "call-1" 5 fuel 0 = some readings ∧
      (readings.map (·.page.content)).flatten = "[exec — ok] built".toList ∧
        (readings.map (·.credited)).flatten = ["7f3a"] := by
  obtain ⟨spans, chunks, hchunks, -, hread⟩ := stored_result_read_back (F := ℚ) builtCall "built".toList 480
  obtain rfl : ["built".toList] = chunks := Option.some.inj (Eq.trans (by decide) hchunks)
  have hstored : Stored [sampleEntry "90c1" "tea".toList [] "m" none, builtRow] builtCall 1 [("built".toList, 0)] := by
    refine ⟨fun _ => builtRow, .of_eq rfl, fun chunk hchunk => ?_⟩
    rw [List.mem_singleton.mp hchunk]
    exact ⟨by decide, fun key value h => congrArg (Option.map String.ofList) h⟩
  exact hread _ [("built".toList, 0)] 5 (.refl _) (List.cons_ne_nil _ _) (by decide) hstored (by decide) (by decide)

end Nanna.Daemon
