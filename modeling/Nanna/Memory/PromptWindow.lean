import Nanna.Lib.Matches
import Nanna.Llm.TokenEstimate
import Nanna.Memory.ClusterScore

/-!
# The summarizer's prompt and its window

`prompt_fits`: what a cluster is asked with, and the reply to it, fit the window that the byte budget was made for,
below a window of 2^32 + 1792 tokens. At that one (`prompt_overflows`) the estimate may be rounded up by more than the
budget leaves free, but never by more than a 2^24th of the window.

A byte makes half a token at most. The framing of a prompt is 1216 ASCII characters and a dash at most
(`prompt_counts`), which take some 350 of the 512 tokens that are kept for it.
-/

namespace Nanna.Memory

open Nanna.Lib Nanna.Llm

variable {F : Type} [Scalar F]

/-! ## The budget -/

/-- Instruction, framing and the separators. -/
def promptOverheadTokens : Nat := 512

/-- Room for the summary. -/
def outputReserveTokens : Nat := 1024

def safeBytesPerToken : Nat := 2

def minContentBytes : Nat := 2048

def clusterContentBytesForContext (contextWindowTokens : Nat) : Nat :=
  let contentTokens := contextWindowTokens - (promptOverheadTokens + outputReserveTokens)
  -- the product wraps in the release build
  let bytes := contentTokens * safeBytesPerToken % 2 ^ 64
  if bytes > minContentBytes then bytes else minContentBytes

def fallbackSummarizerContextWindowTokens : Nat := 8192

namespace ConsolidationConfig

def default : ConsolidationConfig F where
  clusterThreshold := 0.75
  minClusterSize := 2
  maxClusterMemories := 64
  maxClusterContentBytes := clusterContentBytesForContext fallbackSummarizerContextWindowTokens
  maxCompressionRatio := 0.50
  minRemainingMemories := 20
  clusteringWeights := ⟨0.50, 0.10, 0.10, 0.30, 1440.0⟩

def withSummarizerContextWindow (config : ConsolidationConfig F) (contextWindowTokens : Nat) :
    ConsolidationConfig F :=
  { config with maxClusterContentBytes := clusterContentBytesForContext contextWindowTokens }

omit [Scalar F] in
theorem withSummarizerContextWindow_bytes (config : ConsolidationConfig F) (window : Nat) :
    (config.withSummarizerContextWindow window).maxClusterContentBytes = clusterContentBytesForContext window := by
  rw [withSummarizerContextWindow]

end ConsolidationConfig

variable {window n : Nat} {env : Oracles F} {memories cluster : List (MemoryEntry F)}

theorem budget_le (h : 2560 ≤ window) : clusterContentBytesForContext window + 3072 ≤ 2 * window := by
  have hwrap := Nat.mod_le ((window - 1536) * 2) (2 ^ 64)
  unfold clusterContentBytesForContext promptOverheadTokens outputReserveTokens safeBytesPerToken minContentBytes
  dsimp only
  split <;> omega

theorem le_budget (hwrap : window < 2 ^ 63) : (window - 1536) * 2 ≤ clusterContentBytesForContext window := by
  have hwrap : (window - 1536) * 2 % 2 ^ 64 = (window - 1536) * 2 := Nat.mod_eq_of_lt (by omega)
  unfold clusterContentBytesForContext promptOverheadTokens outputReserveTokens safeBytesPerToken minContentBytes
  dsimp only
  split <;> omega

/-! ## The framing -/

theorem digits_counts : ∀ n ≤ 64, asciiCount (toString n).toList ≤ 2 ∧ wideCount (toString n).toList = 0 := by
  decide

theorem header_counts (h : n ≤ 64) :
    asciiCount (s!"You are consolidating {n} memories into one.\n\n").toList ≤ 45 ∧
      wideCount (s!"You are consolidating {n} memories into one.\n\n").toList = 0 := by
  have htext : (s!"You are consolidating {n} memories into one.\n\n").toList =
      "You are consolidating ".toList ++ (toString n).toList ++ " memories into one.\n\n".toList := by
    rw [String.toList_append, String.toList_append]
    rfl
  have hdigits := digits_counts n h
  have hbefore : asciiCount "You are consolidating ".toList = 22 ∧ wideCount "You are consolidating ".toList = 0 := by
    rw [String.toList_ofList]
    decide
  have hafter : asciiCount " memories into one.\n\n".toList = 21 ∧ wideCount " memories into one.\n\n".toList = 0 := by
    rw [String.toList_ofList]
    decide
  rw [htext, asciiCount_append, asciiCount_append, wideCount_append, wideCount_append]
  omega

theorem counts_ofList {chars : List Char} {ascii wide : Nat} (h : asciiCount chars ≤ ascii ∧ wideCount chars ≤ wide) :
    asciiCount (String.ofList chars).toList ≤ ascii ∧ wideCount (String.ofList chars).toList ≤ wide := by
  rwa [String.toList_ofList]

/-- The longest of the instructions, and its dash. -/
theorem standard_counts : asciiCount CompressionLevel.standard.summarizationPrompt.toList = 667 ∧
    wideCount CompressionLevel.standard.summarizationPrompt.toList = 1 := by
  show asciiCount (_ ++ _ : String).toList = 667 ∧ wideCount (_ ++ _ : String).toList = 1
  simp only [String.toList_append]
  repeat rw [String.toList_ofList]
  decide +kernel

theorem instruction_counts (level : CompressionLevel) :
    asciiCount level.summarizationPrompt.toList ≤ 667 ∧ wideCount level.summarizationPrompt.toList ≤ 1 := by
  cases level with
  | standard => exact ⟨standard_counts.1.le, standard_counts.2.le⟩
  | detailed => exact counts_ofList (by decide +kernel)
  | _ =>
    show asciiCount (_ ++ _ : String).toList ≤ 667 ∧ wideCount (_ ++ _ : String).toList ≤ 1
    simp only [String.toList_append]
    repeat rw [String.toList_ofList]
    decide +kernel

theorem memories_counts : asciiCount "\n\nMemories to consolidate:\n\n".toList = 28 ∧
    wideCount "\n\nMemories to consolidate:\n\n".toList = 0 := by
  rw [String.toList_ofList]
  decide

theorem closing_counts : asciiCount "\n\nConsolidated memory:".toList = 22 ∧
    wideCount "\n\nConsolidated memory:".toList = 0 := by
  rw [String.toList_ofList]
  decide

omit [Scalar F] in
/-- The separators are between the memories. -/
theorem content_counts (level : CompressionLevel) (hne : cluster ≠ []) :
    asciiCount (⟨cluster, level⟩ : MemoryCluster F).concatenatedContent + 7 =
        (cluster.map fun memory => asciiCount memory.content).sum + 7 * cluster.length ∧
      wideCount (⟨cluster, level⟩ : MemoryCluster F).concatenatedContent =
        (cluster.map fun memory => wideCount memory.content).sum := by
  have hseparator : asciiCount "\n\n---\n\n".toList = 7 ∧ wideCount "\n\n---\n\n".toList = 0 := by decide
  rcases cluster with _ | ⟨first, rest⟩
  · exact absurd rfl hne
  · rw [MemoryCluster.concatenatedContent, List.map_cons, Text.intercalate_eq, asciiCount_append, wideCount_append]
    induction rest with
    | nil => exact ⟨rfl, rfl⟩
    | cons memory rest ih =>
      obtain ⟨hascii, hwide⟩ := ih (List.cons_ne_nil _ _)
      simp only [List.map_cons, List.flatMap_cons, List.sum_cons, List.length_cons, asciiCount_append,
        wideCount_append] at hascii hwide ⊢
      omega

omit [Scalar F] in
/-- The instruction is the only part that is neither numbers, ASCII nor memories. -/
theorem prompt_counts (level : CompressionLevel) (hne : cluster ≠ []) (hcount : cluster.length ≤ 64) :
    asciiCount (⟨cluster, level⟩ : MemoryCluster F).buildConsolidationPrompt ≤
        asciiCount (⟨cluster, level⟩ : MemoryCluster F).concatenatedContent +
          asciiCount level.summarizationPrompt.toList + 108 ∧
      asciiCount (⟨cluster, level⟩ : MemoryCluster F).concatenatedContent +
          asciiCount level.summarizationPrompt.toList ≤
        asciiCount (⟨cluster, level⟩ : MemoryCluster F).buildConsolidationPrompt ∧
      wideCount (⟨cluster, level⟩ : MemoryCluster F).buildConsolidationPrompt =
        wideCount level.summarizationPrompt.toList + (cluster.map fun memory => wideCount memory.content).sum := by
  obtain ⟨-, hwide⟩ := content_counts level hne
  have hheader := header_counts hcount
  have hmemories := memories_counts
  have hclosing := closing_counts
  have hword : asciiCount "Instruction: ".toList = 13 ∧ wideCount "Instruction: ".toList = 0 := by decide
  rw [MemoryCluster.buildConsolidationPrompt]
  simp only [asciiCount_append, wideCount_append]
  omega

/-! ## The bound -/

/-- Up to half a last place above 2^32 there is nothing to round up by. -/
theorem round_wide_le (w : Nat) (h : w ≤ 2 ^ 32 + 256) : roundSingle w ≤ w + 128 := by
  rcases Nat.eq_zero_or_pos w with rfl | hpos
  · rw [Nat.cast_zero, roundSingle_zero]
    norm_num
  · have hpos : (0 : ℚ) < w := Nat.cast_pos.mpr hpos
    rcases lt_or_ge w (2 ^ 32) with hlt | hge
    · have hlt : (w : ℚ) < 2 ^ (31 + 1 : ℤ) := by exact_mod_cast hlt
      exact (roundSingle_le_of_lt hpos hlt).trans_eq (by norm_num)
    · have hlow : (2 : ℚ) ^ (32 : ℤ) ≤ w := by exact_mod_cast hge
      have hhigh : (w : ℚ) ≤ 2 ^ (32 : ℤ) + 2 ^ (32 - 24 : ℤ) :=
        le_of_le_of_eq (b := ((2 ^ 32 + 256 : Nat) : ℚ)) (Nat.cast_le.mpr h) (by norm_num)
      rw [roundSingle_near hlow hhigh]
      exact hlow.trans (by norm_num)

omit [Scalar F] in
theorem counts_le_bytes (cluster : List (MemoryEntry F)) :
    (cluster.map fun memory => asciiCount memory.content).sum +
        2 * (cluster.map fun memory => wideCount memory.content).sum ≤
      (cluster.map fun memory => Text.byteLen memory.content).sum := by
  induction cluster with
  | nil => exact le_rfl
  | cons memory cluster ih =>
    have hmemory := counts_le_byteLen memory.content
    simp only [List.map_cons, List.sum_cons]
    omega

/-- What the default limits leave of a cluster of two memories or more. -/
theorem cluster_fits
    (h : cluster ∈ clusterMemories env (ConsolidationConfig.default.withSummarizerContextWindow window) memories)
    (hlength : 2 ≤ cluster.length) :
    cluster.length ≤ 64 ∧ (cluster.map fun memory => Text.byteLen memory.content).sum ≤
      clusterContentBytesForContext window := by
  obtain ⟨seed, joined, rfl, hgroup⟩ := grouped_clusterUnassigned _ _ cluster h
  have hjoined : joined ≠ [] := by
    rintro rfl
    simp at hlength
  have hcount : joined.length + 1 ≤ max 64 1 := hgroup.count
  have hbytes := hgroup.bytes hjoined
  rw [ConsolidationConfig.withSummarizerContextWindow_bytes] at hbytes
  rw [List.length_cons]
  exact ⟨by omega, hbytes⟩

/-- What is left of the window before the wide characters are rounded: 160 tokens. -/
theorem prompt_slack (level : CompressionLevel) (hwindow : 2560 ≤ window)
    (h : cluster ∈ clusterMemories env (ConsolidationConfig.default.withSummarizerContextWindow window) memories)
    (hlength : 2 ≤ cluster.length) :
    let prompt := (⟨cluster, level⟩ : MemoryCluster F).buildConsolidationPrompt
    wideCount prompt + 1535 ≤ window ∧ (estimateTokens prompt : ℚ) + 1024 + 160 ≤
      window + (roundSingle (wideCount prompt) - wideCount prompt) := by
  intro prompt
  obtain ⟨hcount, hbytes⟩ := cluster_fits h hlength
  have hne : cluster ≠ [] := List.ne_nil_of_length_pos (by omega)
  have hbudget := budget_le hwindow
  have hcontent := counts_le_bytes cluster
  have hframing := (content_counts level hne).1
  have hinstruction := instruction_counts level
  obtain ⟨hascii, -, hwide⟩ : asciiCount prompt ≤ _ ∧ _ ∧ wideCount prompt = _ := prompt_counts level hne hcount
  have hestimate := estimateTokens_le prompt
  -- the framing takes 348 tokens, and a byte of the memories half a token
  have hparts : 2858 * asciiCount prompt + 10000 * wideCount prompt + 11870000 ≤ 10000 * window := by omega
  have hparts : (2858 : ℚ) * asciiCount prompt + 10000 * wideCount prompt + 11870000 ≤ 10000 * window := by
    exact_mod_cast hparts
  have hshare : 2 * (asciiCount prompt : ℚ) / 7 * (1 + 1 / 2 ^ 24) ^ 2 ≤ 2858 / 10000 * asciiCount prompt := by
    have hratio : (2 : ℚ) / 7 * (1 + 1 / 2 ^ 24) ^ 2 ≤ 2858 / 10000 := by norm_num
    have hmul := mul_le_mul_of_nonneg_right hratio (Nat.cast_nonneg (α := ℚ) (asciiCount prompt))
    linarith
  exact ⟨by omega, by linarith⟩

/-- **Main result.** -/
theorem prompt_fits {level : CompressionLevel} (hwindow : 2560 ≤ window)
    (h : cluster ∈ clusterMemories env (ConsolidationConfig.default.withSummarizerContextWindow window) memories)
    (hlength : 2 ≤ cluster.length) :
    estimateTokens (⟨cluster, level⟩ : MemoryCluster F).buildConsolidationPrompt + outputReserveTokens ≤
        window + window / 2 ^ 24 ∧
      (window < 2 ^ 32 + 1792 →
        estimateTokens (⟨cluster, level⟩ : MemoryCluster F).buildConsolidationPrompt + outputReserveTokens ≤
          window) := by
  obtain ⟨hwide, hslack⟩ := prompt_slack level hwindow h hlength
  set prompt := (⟨cluster, level⟩ : MemoryCluster F).buildConsolidationPrompt
  constructor
  · have hround := roundSingle_le (Nat.cast_nonneg (α := ℚ) (wideCount prompt))
    have hwide : (wideCount prompt : ℚ) ≤ window := Nat.cast_le.mpr (by omega)
    have htotal : (2 ^ 24 : ℚ) * (estimateTokens prompt + 1024) ≤ 2 ^ 24 * window + window := by linarith
    have htotal : 2 ^ 24 * (estimateTokens prompt + 1024) ≤ 2 ^ 24 * window + window := by exact_mod_cast htotal
    rw [outputReserveTokens]
    omega
  · intro hbelow
    have hround := round_wide_le (wideCount prompt) (by omega)
    have htotal : (estimateTokens prompt : ℚ) + 1024 ≤ window := by linarith
    exact_mod_cast htotal

/-! ## One cluster of everything -/

/-- Memories that all score above the threshold, within the two caps. -/
theorem gather_all (env : Oracles F) (config : ConsolidationConfig F) (seed : MemoryEntry F) :
    ∀ (rest : List (MemoryEntry F)) (g : Gathering F), (∀ memory ∈ rest, sameScope seed memory ∧ ∃ score,
      env.scoreOrPrune seed memory config.clusteringWeights config.clusterThreshold = some score ∧
        ¬score < config.clusterThreshold) →
    g.cluster.length + rest.length ≤ config.maxClusterMemories →
    g.clusterBytes + (rest.map fun memory => Text.byteLen memory.content).sum ≤ config.maxClusterContentBytes →
    (rest.foldl (gather env config seed) g).cluster = g.cluster ++ rest
  | [], g, _, _, _ => (List.append_nil _).symm
  | memory :: rest, g, hjoin, hcount, hbytes => by
    obtain ⟨hscope, score, hscore, hhigh⟩ := hjoin memory List.mem_cons_self
    rw [List.length_cons] at hcount
    rw [List.map_cons, List.sum_cons] at hbytes
    have hjoins : joins env config seed g memory = true := by
      have hroom : g.cluster.length < max config.maxClusterMemories 1 := by omega
      have hcap : g.clusterBytes + Text.byteLen memory.content ≤ config.maxClusterContentBytes := by omega
      simp [joins, hscore, hscope, hhigh, hroom, hcap]
    have hstep : gather env config seed g memory =
        ⟨g.cluster ++ [memory], g.clusterBytes + Text.byteLen memory.content, g.unassigned⟩ := if_pos hjoins
    rw [List.foldl_cons, hstep, gather_all env config seed rest _ fun other h => hjoin other (List.mem_cons_of_mem _ h)]
    · exact List.append_assoc _ _ _
    · rw [List.length_append, List.length_singleton]
      omega
    · dsimp only
      omega

/-- Every pair scores one here. -/
theorem flaky_cluster (window : Nat) {memories : List (MemoryEntry ℚ)} (hne : memories ≠ [])
    (hscope : ∀ memory ∈ memories, memory.workspaceId = none) (hcount : memories.length ≤ 64)
    (hbytes : (memories.map fun memory => Text.byteLen memory.content).sum ≤ clusterContentBytesForContext window) :
    memories ∈ clusterMemories flakyOracles (ConsolidationConfig.default.withSummarizerContextWindow window)
      memories := by
  rcases memories with _ | ⟨seed, rest⟩
  · exact absurd rfl hne
  · rw [List.map_cons, List.sum_cons] at hbytes
    rw [List.length_cons] at hcount
    have hall := gather_all flakyOracles (ConsolidationConfig.default.withSummarizerContextWindow window) seed rest
      ⟨[seed], Text.byteLen seed.content, []⟩
    refine List.mem_cons.mpr (.inl (hall (fun memory h => ⟨?_, 1, rfl, ?_⟩) ?_ ?_).symm)
    · rw [sameScope, hscope seed List.mem_cons_self, hscope memory (List.mem_cons_of_mem _ h)]
      rfl
    · show ¬(1 : ℚ) < 0.75
      norm_num
    · show 1 + rest.length ≤ 64
      omega
    · rwa [ConsolidationConfig.withSummarizerContextWindow_bytes]

/-- Two short memories. -/
theorem prompt_fits_short :
    let cluster : List (MemoryEntry ℚ) :=
      [sampleEntry "a" "red".toList [1, 0] "m" none, sampleEntry "b" "rød".toList [1, 0] "m" none]
    estimateTokens (⟨cluster, .standard⟩ : MemoryCluster ℚ).buildConsolidationPrompt + outputReserveTokens ≤
        2560 + 2560 / 2 ^ 24 ∧
      (2560 < 2 ^ 32 + 1792 →
        estimateTokens (⟨cluster, .standard⟩ : MemoryCluster ℚ).buildConsolidationPrompt + outputReserveTokens ≤
          2560) := by
  intro cluster
  have hcluster : cluster ∈ clusterMemories flakyOracles
      (ConsolidationConfig.default.withSummarizerContextWindow 2560) cluster :=
    flaky_cluster 2560 (List.cons_ne_nil _ _) (by simp [cluster, sampleEntry]) (by decide) (by decide)
  exact prompt_fits le_rfl hcluster le_rfl

/-! ## Where it does not fit -/

/-- A memory of two-byte characters. -/
def wideMemory (n i : Nat) : MemoryEntry ℚ :=
  sampleEntry (toString i) (List.replicate n 'é') [1, 0] "m" none

def wideMemories (n : Nat) : List (MemoryEntry ℚ) := (List.range 64).map (wideMemory n)

theorem wide_sum (count : Text → Nat) (n : Nat) :
    ((wideMemories n).map fun memory => count memory.content).sum = 64 * count (List.replicate n 'é') := by
  rw [wideMemories, List.map_map]
  change ((List.range 64).map fun _ => count (List.replicate n 'é')).sum = _
  rw [List.map_const', List.length_range, List.sum_replicate_nat]

theorem wide_length (n : Nat) : (wideMemories n).length = 64 := by
  rw [wideMemories, List.length_map, List.length_range]

theorem wide_clusters (h : 64 * n + 1536 ≤ window) (hwrap : window < 2 ^ 63) :
    wideMemories n ∈ clusterMemories flakyOracles (ConsolidationConfig.default.withSummarizerContextWindow window)
      (wideMemories n) := by
  have hlength := wide_length n
  refine flaky_cluster window (List.ne_nil_of_length_pos (by omega)) (fun memory hmemory => ?_) hlength.le ?_
  · obtain ⟨i, -, rfl⟩ := List.mem_map.mp hmemory
    rfl
  · have hsize : Text.byteLen (List.replicate n 'é') = n * 2 := by
      rw [Text.byteLen, List.map_replicate, List.sum_replicate_nat]
      rfl
    have hbudget := le_budget hwrap
    rw [wide_sum, hsize]
    omega

theorem wide_counts (n : Nat) :
    1108 ≤ asciiCount (⟨wideMemories n, .standard⟩ : MemoryCluster ℚ).buildConsolidationPrompt ∧
      wideCount (⟨wideMemories n, .standard⟩ : MemoryCluster ℚ).buildConsolidationPrompt = 64 * n + 1 := by
  have hlength := wide_length n
  have hne : wideMemories n ≠ [] := List.ne_nil_of_length_pos (by omega)
  obtain ⟨-, hascii, hwide⟩ := prompt_counts .standard hne hlength.le
  have hcontent := (content_counts .standard hne).1
  have hwideContent : wideCount (List.replicate n 'é') = n := by
    rw [wideCount, List.countP_replicate]
    rfl
  rw [wide_sum wideCount, hwideContent] at hwide
  have hinstruction := standard_counts
  omega

/-- 2^32 + 257 wide characters, the dash among them, are rounded to 2^32 + 512. -/
theorem prompt_overflows :
    let cluster := wideMemories (2 ^ 26 + 4)
    cluster ∈ clusterMemories flakyOracles
        (ConsolidationConfig.default.withSummarizerContextWindow (2 ^ 32 + 1792)) cluster ∧
      2 ≤ cluster.length ∧
      ¬estimateTokens (⟨cluster, .standard⟩ : MemoryCluster ℚ).buildConsolidationPrompt + outputReserveTokens ≤
        2 ^ 32 + 1792 := by
  intro cluster
  have hlength : cluster.length = 64 := wide_length _
  obtain ⟨hascii, hwide⟩ : 1108 ≤ asciiCount (⟨cluster, .standard⟩ : MemoryCluster ℚ).buildConsolidationPrompt ∧ _ :=
    wide_counts (2 ^ 26 + 4)
  refine ⟨wide_clusters (by norm_num) (by norm_num), by omega, ?_⟩
  set prompt := (⟨cluster, .standard⟩ : MemoryCluster ℚ).buildConsolidationPrompt
  have hround : roundSingle (2 ^ 32 + 257) = 2 ^ 32 + 512 := by
    rw [roundSingle_of_mem (k := 32) (by norm_num) (by norm_num) (by norm_num)]
    have hfloor : ⌊((2 ^ 32 + 257 : ℚ) / 2 ^ (32 - 23 : ℤ))⌋ = 2 ^ 23 := by
      rw [Int.floor_eq_iff]
      norm_num
    rw [roundEven, hfloor, if_neg (by norm_num)]
    norm_num
  have hshare : ((257 : Nat) : ℚ) ≤ asciiCount prompt / 4 * (1 - 1 / 2 ^ 24) ^ 2 := by
    have hascii : (1108 : ℚ) ≤ asciiCount prompt := by exact_mod_cast hascii
    rw [Nat.cast_ofNat]
    linarith
  have hrounded : ((2 ^ 32 + 512 : Nat) : ℚ) ≤ roundSingle (wideCount prompt) := by
    have hcount : ((64 * (2 ^ 26 + 4) + 1 : Nat) : ℚ) = 2 ^ 32 + 257 := by norm_num
    rw [hwide, hcount, hround]
    norm_num
  have htokens := le_estimateTokens (by norm_num) (by norm_num) hshare hrounded
  rw [outputReserveTokens]
  omega

end Nanna.Memory
