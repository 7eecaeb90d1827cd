import ManyAiCli.Hub.ApprovalTargets
import ManyAiCli.Text.Blocks
import ManyAiCli.Wrapper.TrimSpace

/-! The summaries that an AI session writes between two markers when it is done. The text
of the PTY comes in chunks, and what is kept of it is searched after each one. A chunk is
its bytes after `StripANSI` and the masks, which change nothing where there is neither an
escape sequence nor a secret. -/

namespace ManyAiCli.Hub.DoneSummary

open Runs Text Wrapper
open ApprovalTargets (isAIProvider)

def doneSummaryMarkerOpen : Bytes := ascii "[MANY-AI-CLI-DONE]"

def doneSummaryMarkerClose : Bytes := ascii "[/MANY-AI-CLI-DONE]"

def doneMsgScanBufMax : ℕ := 16 * 1024

/-- `doneNotifyMinInterval`, in seconds. -/
def doneNotifyMinInterval : ℕ := 60

/-! ### The handler -/

/-- The text between the markers; none where it is blank. -/
def summaryOf (data : Bytes) : Option Bytes :=
  match index doneSummaryMarkerOpen data with
  | none => none
  | some open' =>
    let start := open' + doneSummaryMarkerOpen.length
    match index doneSummaryMarkerClose (data.drop start) with
    | none => none
    | some closeIdx =>
      let summary := trimSpaceBytes ((data.drop start).take closeIdx)
      if summary = [] then none else some summary

structure Session where
  provider : String
  lastDoneNotifyAt : Option ℕ
  deriving DecidableEq, Repr

/-- The session after it and the summary that is published. -/
def handleDoneSummaryMarker (ses : Session) (now : ℕ) (data : Bytes) : Session × Option Bytes :=
  match summaryOf data with
  | none => (ses, none)
  | some summary =>
    if ¬ isAIProvider ses.provider then (ses, none)
    else if ses.lastDoneNotifyAt.any fun last => now - last < doneNotifyMinInterval then (ses, none)
    else ({ ses with lastDoneNotifyAt := some now }, some summary)

/-- Of an AI session, and not within the interval, all summaries found are published. -/
theorem handleDoneSummaryMarker_eq {ses : Session} {now : ℕ} (data : Bytes)
    (hai : isAIProvider ses.provider = true)
    (hdue : ∀ last, ses.lastDoneNotifyAt = some last → last + doneNotifyMinInterval ≤ now) :
    (handleDoneSummaryMarker ses now data).2 = summaryOf data := by
  have hany : (ses.lastDoneNotifyAt.any fun last => now - last < doneNotifyMinInterval) = false := by
    cases hlast : ses.lastDoneNotifyAt with
    | none => rfl
    | some last =>
      have hle := hdue last hlast
      simp only [Option.any_some, decide_eq_false_iff_not]
      omega
  rw [handleDoneSummaryMarker]
  cases summaryOf data with
  | none => rfl
  | some summary => simp [hai, hany]

/-! ### The scan buffer -/

/-- The text that is searched: what was kept and the chunk, at most the last bytes of them. -/
def scanned (doneMsgBuf chunk : Bytes) : Bytes :=
  (doneMsgBuf ++ chunk).drop ((doneMsgBuf ++ chunk).length - doneMsgScanBufMax)

/-- Both markers are in it, in any order. -/
def HasBoth (buf : Bytes) : Prop := doneSummaryMarkerOpen <:+: buf ∧ doneSummaryMarkerClose <:+: buf

instance (buf : Bytes) : Decidable (HasBoth buf) := inferInstanceAs (Decidable (_ ∧ _))

/-- The buffer after the search and the summary. -/
def scan (buf : Bytes) : Bytes × Option Bytes := if HasBoth buf then ([], summaryOf buf) else (buf, none)

/-- What `wrapperMessageLoop` does with a chunk. -/
def scanChunk (doneMsgBuf chunk : Bytes) : Bytes × Option Bytes := scan (scanned doneMsgBuf chunk)

/-- The buffer of a session and all text that came before. -/
structure Stream where
  doneMsgBuf : Bytes
  read : Bytes

/-- The next chunk comes; an event is a summary. -/
def Stream.step (s : Stream) (chunk : Bytes) : Option (Stream × List Bytes) :=
  some (⟨(scanChunk s.doneMsgBuf chunk).1, s.read ++ chunk⟩, (scanChunk s.doneMsgBuf chunk).2.toList)

/-! ### The blocks of the stream -/

def doneMarks : BlockMarks UInt8 where
  first := 0x5B
  openRest := ascii "MANY-AI-CLI-DONE]"
  closeRest := ascii "/MANY-AI-CLI-DONE]"
  first_notMem_open := by decide
  first_notMem_close := by decide
  open_not_starts := by decide
  close_not_starts := by decide

/-- The bodies that are not blank, without the space around them. -/
def texts (bodies : List Bytes) : List Bytes := (bodies.map trimSpaceBytes).filter (· ≠ [])

/-- The blocks that a chunk completes, in the text that no block before has read; only
those that are not blank. -/
def Stream.completed (s : Stream) (chunk : Bytes) : List (Bytes × Bytes) :=
  (doneMarks.blocks (doneMarks.rest s.read ++ chunk)).1.filter fun block => trimSpaceBytes block.1 ≠ []

/-- The chunk completes no block, or it completes one and the first start marker of what
is searched is the one of this block. -/
def Whole (s : Stream) (chunk : Bytes) : Prop :=
  s.completed chunk = [] ∨
    ∃ body after i, s.completed chunk = [(body, after)] ∧
      index doneSummaryMarkerOpen (scanned s.doneMsgBuf chunk) = some i ∧
      (scanned s.doneMsgBuf chunk).drop i = doneMarks.block body after

/-! ### Blank bodies -/

/-- Trimming takes no marker away. -/
theorem count_first_trimSpaceBytes (s : Bytes) :
    (trimSpaceBytes s).count doneMarks.first = s.count doneMarks.first :=
  count_trimSpaceBytes (by decide) s

variable {b y : Bytes}

theorem trimSpaceBytes_ne_of_start : trimSpaceBytes (y ++ (doneMarks.start ++ b)) ≠ trimSpaceBytes b := by
  intro h
  have hcount := congrArg (List.count doneMarks.first) h
  rw [count_first_trimSpaceBytes, count_first_trimSpaceBytes, List.count_append, List.count_append] at hcount
  have hstart : doneMarks.start.count doneMarks.first = 1 := by decide
  omega

theorem trimSpaceBytes_ne_nil_of_start : trimSpaceBytes (y ++ (doneMarks.start ++ b)) ≠ [] := by
  intro h
  have hcount := congrArg (List.count doneMarks.first) h
  rw [count_first_trimSpaceBytes, List.count_append, List.count_append] at hcount
  have hstart : doneMarks.start.count doneMarks.first = 1 := by decide
  rw [hstart, List.count_nil] at hcount
  omega

/-! ### One chunk -/

variable {s : Stream} {chunk data : Bytes}

theorem start_eq : doneMarks.start = doneSummaryMarkerOpen := by decide

theorem stop_eq : doneMarks.stop = doneSummaryMarkerClose := by decide

/-- `handleDoneSummaryMarker` reads the first block. -/
theorem summaryOf_eq (data : Bytes) : summaryOf data = (doneMarks.cutBlock data).bind fun cut =>
    if trimSpaceBytes cut.1 = [] then none else some (trimSpaceBytes cut.1) := by
  rw [summaryOf, BlockMarks.cutBlock, start_eq, stop_eq]
  cases index doneSummaryMarkerOpen data with
  | none => rfl
  | some i => cases h : index doneSummaryMarkerClose (data.drop (i + doneSummaryMarkerOpen.length)) <;> simp
      [h]

theorem texts_eq (v : Bytes) : texts (doneMarks.bodies v) =
    ((doneMarks.blocks v).1.filter fun block => trimSpaceBytes block.1 ≠ []).map (trimSpaceBytes ·.1) := by
  rw [texts, BlockMarks.bodies, List.map_map, List.filter_map]
  rfl

theorem hasBoth_iff {buf : Bytes} :
    HasBoth buf ↔ doneMarks.start <:+: buf ∧ doneMarks.stop <:+: buf := by
  rw [start_eq, stop_eq, HasBoth]

/-- The test for both markers only saves a search. -/
theorem scan_summary (buf : Bytes) : (scan buf).2 = summaryOf buf := by
  rw [scan]
  split
  next => rfl
  next hnot =>
    rw [summaryOf_eq]
    cases hcut : doneMarks.cutBlock buf with
    | none => rfl
    | some cut =>
      obtain ⟨p, rfl, -⟩ := doneMarks.cutBlock_eq_some_iff.1 hcut
      have hblock : doneMarks.block cut.1 cut.2 <:+: p ++ doneMarks.block cut.1 cut.2 :=
        (List.suffix_append p _).isInfix
      exact absurd (hasBoth_iff.2 ⟨doneMarks.start_infix_block.trans hblock,
        doneMarks.stop_infix_block.trans hblock⟩) hnot

theorem window_scan {buf v : Bytes} (h : doneMarks.Window buf v) :
    doneMarks.Window (scan buf).1 (doneMarks.rest v) := by
  rw [scan]
  split
  next => exact .nil
  next hnot => exact h.rest (mt hasBoth_iff.2 hnot)

/-- The buffer goes with the text that no block has read. -/
def Stream.Follows (s : Stream) : Prop := doneMarks.Window s.doneMsgBuf (doneMarks.rest s.read)

namespace Stream.Follows

theorem of_window {doneMsgBuf read : Bytes} (h : doneMarks.Window doneMsgBuf (doneMarks.rest read)) :
    Stream.Follows ⟨doneMsgBuf, read⟩ := h

theorem scanned (h : s.Follows) (chunk : Bytes) :
    doneMarks.Window (scanned s.doneMsgBuf chunk) (doneMarks.rest s.read ++ chunk) :=
  (h.append chunk).of_suffix (List.drop_suffix _ _)

theorem step (h : s.Follows) (chunk : Bytes) :
    Stream.Follows ⟨(scanChunk s.doneMsgBuf chunk).1, s.read ++ chunk⟩ := by
  refine .of_window ?_
  rw [scanChunk, BlockMarks.rest_append]
  exact window_scan (h.scanned chunk)

/-- A block that is found is one that the chunk completes, or the end of one. -/
theorem exists_completed {after : Bytes} (h : s.Follows)
    (hcut : doneMarks.cutBlock (DoneSummary.scanned s.doneMsgBuf chunk) = some (b, after))
    (hb : trimSpaceBytes b ≠ []) :
    ∃ body, (body, after) ∈ s.completed chunk ∧ (trimSpaceBytes body = trimSpaceBytes b → body = b) := by
  obtain ⟨p, hw, -, hstop⟩ := doneMarks.cutBlock_eq_some_iff.1 hcut
  obtain ⟨q, hv⟩ := (h.scanned chunk).exists_split hw
  obtain ⟨body, hmem, hbody⟩ := doneMarks.exists_block_of_split hv hstop
  refine ⟨body, List.mem_filter.2 ⟨hmem, ?_⟩, ?_⟩
  · rcases hbody with rfl | ⟨y, rfl⟩
    · simpa using hb
    · simpa using trimSpaceBytes_ne_nil_of_start
  · rcases hbody with rfl | ⟨y, rfl⟩
    · exact fun _ => rfl
    · exact fun heq => absurd heq trimSpaceBytes_ne_of_start

end Stream.Follows

theorem summaryOf_of_cutBlock {after : Bytes} (hcut : doneMarks.cutBlock data = some (b, after))
    (hb : trimSpaceBytes b ≠ []) : summaryOf data = some (trimSpaceBytes b) := by
  rw [summaryOf_eq, hcut, Option.bind_some, if_neg hb]

theorem exists_of_summaryOf {text : Bytes} (h : summaryOf data = some text) :
    ∃ b after, doneMarks.cutBlock data = some (b, after) ∧ trimSpaceBytes b ≠ [] ∧ trimSpaceBytes b = text :=
      by
  rw [summaryOf_eq, Option.bind_eq_some_iff] at h
  obtain ⟨cut, hcut, hb⟩ := h
  split_ifs at hb with hempty
  exact ⟨cut.1, cut.2, hcut, hempty, Option.some.inj hb⟩

theorem length_found_le (h : s.Follows) (chunk : Bytes) :
    (scanChunk s.doneMsgBuf chunk).2.toList.length ≤
      (texts (doneMarks.bodies (doneMarks.rest s.read ++ chunk))).length := by
  rw [scanChunk, scan_summary, texts_eq, List.length_map]
  cases hsum : summaryOf (scanned s.doneMsgBuf chunk) with
  | none => exact Nat.zero_le _
  | some text =>
    obtain ⟨b, after, hcut, hb, -⟩ := exists_of_summaryOf hsum
    obtain ⟨body, hmem, -⟩ := h.exists_completed hcut hb
    exact List.length_pos_of_mem hmem

/-- The block whose start marker is the first one is found. -/
theorem summaryOf_of_completed {body after : Bytes} {i : ℕ} (hone : s.completed chunk = [(body, after)])
    (hi : index doneSummaryMarkerOpen data = some i) (hdrop : data.drop i = doneMarks.block body after) :
    summaryOf data = some (trimSpaceBytes body) := by
  have hmem : (body, after) ∈ s.completed chunk := hone ▸ List.mem_singleton_self _
  obtain ⟨hmem, hbody⟩ := List.mem_filter.1 hmem
  refine summaryOf_of_cutBlock (doneMarks.cutBlock_of_index ?_ hdrop (doneMarks.stop_not_infix_of_mem hmem))
    ?_
  · rw [start_eq]
    exact hi
  · simpa using hbody

/-- The summary of a chunk is what the chunk completes. -/
theorem found_iff (h : s.Follows) (chunk : Bytes) : (scanChunk s.doneMsgBuf chunk).2.toList =
    texts (doneMarks.bodies (doneMarks.rest s.read ++ chunk)) ↔ Whole s chunk := by
  rw [scanChunk, scan_summary, texts_eq]
  constructor
  · intro heq
    cases hsum : summaryOf (scanned s.doneMsgBuf chunk) with
    | none =>
      rw [hsum] at heq
      exact .inl (List.map_eq_nil_iff.1 heq.symm)
    | some text =>
      rw [hsum, Option.toList_some] at heq
      obtain ⟨b, after, hcut, hb, rfl⟩ := exists_of_summaryOf hsum
      obtain ⟨body, hmem, hbody⟩ := h.exists_completed hcut hb
      obtain ⟨only, honly, htrim⟩ := List.map_eq_singleton_iff.1 heq.symm
      have hcompleted : s.completed chunk = [only] := honly
      rw [hcompleted, List.mem_singleton] at hmem
      subst hmem
      obtain rfl := hbody htrim
      obtain ⟨i, hi, hdrop⟩ := doneMarks.index_of_cutBlock hcut
      exact .inr ⟨body, after, i, hcompleted, start_eq ▸ hi, hdrop⟩
  · rintro (hnone | ⟨body, after, i, hone, hi, hdrop⟩)
    · cases hsum : summaryOf (scanned s.doneMsgBuf chunk) with
      | none => exact (List.map_eq_nil_iff.2 hnone).symm
      | some text =>
        obtain ⟨b, after, hcut, hb, -⟩ := exists_of_summaryOf hsum
        obtain ⟨body, hmem, -⟩ := h.exists_completed hcut hb
        rw [hnone] at hmem
        exact absurd hmem List.not_mem_nil
    · rw [summaryOf_of_completed hone hi hdrop, Option.toList_some]
      exact (congrArg (List.map (trimSpaceBytes ·.1)) hone).symm

/-! ### All chunks -/

theorem texts_append (v w : List Bytes) : texts (v ++ w) = texts v ++ texts w := by
  rw [texts, List.map_append, List.filter_append]
  rfl

/-- Of texts that are not longer, only the same ones make the same text. -/
theorem append_eq_append_iff_of_le {α : Type*} {a b c d : List α} (hac : a.length ≤ c.length)
    (hbd : b.length ≤ d.length) : a ++ b = c ++ d ↔ a = c ∧ b = d := by
  constructor
  · intro h
    have hlen := congrArg List.length h
    rw [List.length_append, List.length_append] at hlen
    exact List.append_inj h (by omega)
  · rintro ⟨rfl, rfl⟩
    rfl

/-- The summaries are no more than the blocks, and are the blocks where each chunk is whole. -/
theorem exec_iff (h : s.Follows) (chunks : List Bytes) :
    ∃ t found, exec Stream.step s chunks = some (t, found) ∧
      found.length ≤ (texts (doneMarks.bodies (doneMarks.rest s.read ++ chunks.flatten))).length ∧
      (found = texts (doneMarks.bodies (doneMarks.rest s.read ++ chunks.flatten)) ↔
        Meets Stream.step Whole s chunks) := by
  induction chunks generalizing s with
  | nil =>
    have hnone : doneMarks.bodies (doneMarks.rest s.read ++ []) = [] := by
      rw [List.append_nil, BlockMarks.bodies, BlockMarks.blocks_of_none _ (doneMarks.cutBlock_rest _), List.map_nil]
    refine ⟨s, [], rfl, Nat.zero_le _, ?_⟩
    rw [List.flatten_nil, hnone]
    exact ⟨fun _ => trivial, fun _ => rfl⟩
  | cons chunk chunks ih =>
    obtain ⟨t, found, hx, hle, hiff⟩ := ih (h.step chunk)
    have hsplit : texts (doneMarks.bodies (doneMarks.rest s.read ++ (chunk :: chunks).flatten)) =
        texts (doneMarks.bodies (doneMarks.rest s.read ++ chunk)) ++
          texts (doneMarks.bodies (doneMarks.rest (s.read ++ chunk) ++ chunks.flatten)) := by
      rw [List.flatten_cons, ← List.append_assoc, BlockMarks.bodies_append, texts_append, ← BlockMarks.rest_append]
    have hlen := length_found_le h chunk
    refine ⟨t, _, exec_cons_eq_some.2 ⟨_, _, _, rfl, hx, rfl⟩, ?_, ?_⟩
    · rw [hsplit, List.length_append, List.length_append]
      exact Nat.add_le_add hlen hle
    · rw [hsplit, append_eq_append_iff_of_le hlen hle, found_iff h, hiff, Meets]
      rfl

/-- However a stream is cut into chunks, the summaries are those of its blocks exactly when
each chunk completes no block, or one that is found. -/
theorem summaries_iff (chunks : List Bytes) :
    ∃ s found, exec Stream.step ⟨[], []⟩ chunks = some (s, found) ∧
      (found = texts (doneMarks.bodies chunks.flatten) ↔ Meets Stream.step Whole ⟨[], []⟩ chunks) := by
  have hrest : doneMarks.rest [] = [] := doneMarks.rest_of_none rfl
  have hfollows : Stream.Follows ⟨[], []⟩ := .of_window .nil
  obtain ⟨s, found, hx, -, hiff⟩ := exec_iff hfollows chunks
  refine ⟨s, found, hx, ?_⟩
  rwa [hrest] at hiff

/-- Two blocks that come in one chunk. -/
def twoBlocks : Bytes :=
  ascii "[MANY-AI-CLI-DONE] one [/MANY-AI-CLI-DONE]\n[MANY-AI-CLI-DONE] two [/MANY-AI-CLI-DONE]\n"

theorem bodies_twoBlocks : doneMarks.bodies twoBlocks = [ascii " one ", ascii " two "] := by
  have hone : doneMarks.cutBlock twoBlocks = some (ascii " one ",
      ascii "\n[MANY-AI-CLI-DONE] two [/MANY-AI-CLI-DONE]\n") := by decide +kernel
  have htwo : doneMarks.cutBlock (ascii "\n[MANY-AI-CLI-DONE] two [/MANY-AI-CLI-DONE]\n") =
      some (ascii " two ", ascii "\n") := by decide +kernel
  have hrest : doneMarks.cutBlock (ascii "\n") = none := by decide +kernel
  rw [BlockMarks.bodies, doneMarks.blocks_of_some hone, doneMarks.blocks_of_some htwo, doneMarks.blocks_of_none
    hrest]
  rfl

/-- The second of them is lost. -/
theorem second_block_lost : ∃ s found,
    (∀ body ∈ doneMarks.bodies [twoBlocks].flatten, (doneMarks.block body []).length ≤ doneMsgScanBufMax) ∧
    exec Stream.step ⟨[], []⟩ [twoBlocks] = some (s, found) ∧
    found = [ascii "one"] ∧ texts (doneMarks.bodies [twoBlocks].flatten) = [ascii "one", ascii "two"] := by
  have hflat : [twoBlocks].flatten = twoBlocks := List.append_nil _
  rw [hflat, bodies_twoBlocks]
  exact ⟨_, _, by decide +kernel, rfl, by decide +kernel, by decide +kernel⟩

end ManyAiCli.Hub.DoneSummary
