import ManyAiCli.Hub.CommitMessage

/-! The scan of a growing buffer for a commit message. A line that opens a block still does when it
goes on, no marker is in a line of a message, and so the buffer has nothing to suggest up to the
end of the closing marker and the message from there on. Only a message of one line with a marker
on either side of it is missed. -/

namespace ManyAiCli.Hub.CommitMessage

open Text Wrapper

variable {line raw p : Bytes} {ls rest : List Bytes} {front : List Bytes}

/-! ### A line that goes on -/

theorem three_le_commitMsgMarkerOpen : 3 ≤ commitMsgMarkerOpen.length := by decide

theorem gutters_length : ∀ g ∈ gutters, g.length ≤ 3 := by decide

theorem spaces_length : ∀ e ∈ spaces, e.length ≤ 3 := by decide

theorem isOpenLine_iff : isOpenLine line = true ↔ commitMsgMarkerOpen <+: dropEncoded spaces 0 line := by
  have hclosing : ∀ e ∈ spaces, e ≠ [] ∧ (0x5D : UInt8) ∉ e := by decide
  have hmarker : commitMsgMarkerOpen = ascii "[MANY-AI-CLI-COMMIT" ++ [0x5D] := by decide
  rw [isOpenLine, List.isPrefixOf_iff_prefix, hmarker]
  exact prefix_trimSpaceBytes_iff hclosing

theorem rdropWhile_append_isPrefix (f : UInt8 → Bool) (p q : Bytes) : p.rdropWhile f <+: (p ++ q).rdropWhile f
    := by
  rw [List.rdropWhile, List.rdropWhile, List.reverse_append, List.reverse_prefix, List.dropWhile_append]
  split_ifs
  · exact List.suffix_rfl
  · exact (List.dropWhile_suffix f).trans (List.suffix_append _ _)

theorem isOpenLine_append (h : isOpenLine (cleanTUILine p) = true) (q : Bytes) :
    isOpenLine (cleanTUILine (p ++ q)) = true := by
  have hopen := isOpenLine_iff.1 h
  obtain ⟨t, ht⟩ := rdropWhile_append_isPrefix (· = carriageReturn) p q
  have hspaces := three_le_commitMsgMarkerOpen.trans hopen.length_le
  have hgutters : 3 ≤ (cleanTUILine p).length := hspaces.trans (dropEncoded_suffix spaces 0 _).length_le
  have hclean : cleanTUILine (p ++ q) = cleanTUILine p ++ t := by
    rw [cleanTUILine, ← ht]
    exact dropEncoded_append gutters_length hgutters (by decide) t
  rw [hclean, isOpenLine_iff, dropEncoded_append spaces_length hspaces (by decide)]
  exact hopen.trans (List.prefix_append _ t)

theorem not_isOpenLine_of_front (h : isOpenLine (cleanTUILine raw) = false) (hp : p <+: raw) :
    isOpenLine (cleanTUILine p) = false := by
  rw [← Bool.not_eq_true] at h ⊢
  intro hopen
  obtain ⟨q, rfl⟩ := hp
  exact h (isOpenLine_append hopen q)

/-! ### The lines of a buffer -/

theorem fromLastOpen_eq_none (h : ∀ line ∈ ls, isOpenLine line = false) : fromLastOpen ls = none := by
  induction ls with
  | nil => rfl
  | cons line ls ih =>
    rw [fromLastOpen, ih fun l hl => h l (List.mem_cons_of_mem line hl), h line (List.mem_cons_self ..)]
    rfl

theorem fromLastOpen_append (hline : isOpenLine line = true) (hrest : ∀ line ∈ rest, isOpenLine line = false)
    :
    fromLastOpen (ls ++ line :: rest) = some (line, rest) := by
  induction ls with
  | nil =>
    rw [List.nil_append, fromLastOpen, fromLastOpen_eq_none hrest, if_pos hline]
    rfl
  | cons l ls ih =>
    rw [List.cons_append, fromLastOpen, ih]
    rfl

theorem upToClose_eq_none (h : ∀ line ∈ ls, ¬ commitMsgMarkerClose <:+: line) : upToClose ls = none := by
  induction ls with
  | nil => rfl
  | cons line ls ih =>
    have hnone : index commitMsgMarkerClose line = none := by
      rw [← Option.not_isSome_iff_eq_none, index_isSome_iff]
      exact h line (List.mem_cons_self ..)
    rw [upToClose, hnone, ih fun l hl => h l (List.mem_cons_of_mem line hl)]
    rfl

theorem upToClose_append {leading tail : Bytes} (hls : ∀ line ∈ ls, ¬ commitMsgMarkerClose <:+: line)
    (hleading : ¬ commitMsgMarkerClose <:+: leading) :
    upToClose (ls ++ (leading ++ (commitMsgMarkerClose ++ tail)) :: rest) = some (ls, trimSpaceBytes leading)
      := by
  induction ls with
  | nil =>
    have hindex : index commitMsgMarkerClose (leading ++ (commitMsgMarkerClose ++ tail)) = some
      leading.length := by
      refine index_append leading (List.prefix_append _ _) ?_
      exact (noneIn_cons_iff (by decide)).2 hleading
    rw [List.nil_append, upToClose, hindex]
    show some ([], trimSpaceBytes (List.take leading.length (leading ++ _))) = _
    rw [List.take_left]
  | cons l ls ih =>
    have hnone : index commitMsgMarkerClose l = none := by
      rw [← Option.not_isSome_iff_eq_none, index_isSome_iff]
      exact hls l (List.mem_cons_self ..)
    rw [List.cons_append, upToClose, hnone, ih fun l' hl' => hls l' (List.mem_cons_of_mem l hl')]
    rfl

/-! ### A line as a terminal draws it -/

/-- What both markers begin with. -/
def bracket : UInt8 := 0x5B

theorem gutters_free : ∀ g ∈ gutters, ∀ g' ∈ gutters, g <+: g' → g = g' := by decide

theorem gutters_clean : ∀ g ∈ gutters, g ≠ [] ∧ bracket ∉ g ∧ carriageReturn ∉ g := by decide

theorem spaces_clean : ∀ e ∈ spaces, e ≠ [] ∧ bracket ∉ e := by decide

theorem spaces_carriageReturn : [carriageReturn] ∈ spaces := by decide

theorem commitMsgMarkerOpen_eq : commitMsgMarkerOpen = bracket :: ascii "MANY-AI-CLI-COMMIT]" := by
  decide

theorem commitMsgMarkerClose_eq : commitMsgMarkerClose = bracket :: ascii "/MANY-AI-CLI-COMMIT]" := by
  decide

/-- A marker: it begins with the bracket, has no other, and no carriage return. -/
def IsMarker (sub : Bytes) : Prop := ∃ r, sub = bracket :: r ∧ bracket ∉ r ∧ carriageReturn ∉ r

theorem isMarker_open : IsMarker commitMsgMarkerOpen :=
  ⟨ascii "MANY-AI-CLI-COMMIT]", commitMsgMarkerOpen_eq, by decide, by decide⟩

theorem isMarker_close : IsMarker commitMsgMarkerClose :=
  ⟨ascii "/MANY-AI-CLI-COMMIT]", commitMsgMarkerClose_eq, by decide, by decide⟩

theorem notMem_flatten_gutters {b : UInt8} (hb : ∀ g ∈ gutters, b ∉ g) (hfront : ∀ g ∈ front, g ∈ gutters) :
    b ∉ front.flatten := by
  intro hm
  obtain ⟨g, hg, hin⟩ := List.mem_flatten.1 hm
  exact hb g (hfront g hg) hin

/-- What is drawn around a line makes no marker. -/
theorem Drawn.marker_in {sub : Bytes} (hsub : IsMarker sub) (hd : Drawn line raw) (h : sub <:+: raw) : sub <:+:
    line := by
  obtain ⟨r, rfl, -, hcr⟩ := hsub
  obtain ⟨front, crs, hfront, rfl⟩ := hd
  have hnot := notMem_flatten_gutters (fun g hg => (gutters_clean g hg).2.1) hfront
  have hapart : Apart (bracket :: r) front.flatten (line ++ List.replicate crs carriageReturn) :=
    fun u hne hu hp => absurd hp (noneIn_of_notMem hnot u hne hu)
  have hcr' : carriageReturn ∉ bracket :: r := by
    rw [List.mem_cons, not_or]
    exact ⟨by decide, hcr⟩
  rcases hapart.infix_iff.1 h with h | h
  · exact absurd (h.subset (List.mem_cons_self ..)) hnot
  · cases crs with
    | zero => rwa [List.replicate_zero, List.append_nil] at h
    | succ crs =>
      rw [List.replicate_succ] at h
      rcases (infix_append_cons_iff hcr' (List.cons_ne_nil _ _)).1 h with h | h
      · exact h
      · have hin := List.eq_of_mem_replicate (h.subset (List.mem_cons_self ..))
        exact absurd hin (by decide)

theorem rdropWhile_of_not_suffix {b : UInt8} {s : Bytes} (h : ¬ [b] <:+ s) : s.rdropWhile (· = b) = s := by
  rw [List.rdropWhile_eq_self_iff]
  intro hne hlast
  refine h ⟨s.dropLast, ?_⟩
  rw [← of_decide_eq_true hlast]
  exact List.dropLast_append_getLast hne

theorem rdropWhile_append_replicate {b : UInt8} {s : Bytes} (n : ℕ) (h : ¬ [b] <:+ s) :
    (s ++ List.replicate n b).rdropWhile (· = b) = s := by
  induction n with
  | zero => rw [List.replicate_zero, List.append_nil, rdropWhile_of_not_suffix h]
  | succ n ih =>
    rw [List.replicate_succ', ← List.append_assoc,
      List.rdropWhile_concat_pos (fun x => decide (x = b)) _ b (decide_eq_true rfl), ih]

/-- With gutters in front, a carriage return at the end is at the end of the line. -/
theorem not_suffix_flatten_append (hfront : ∀ g ∈ front, g ∈ gutters) (h : ¬ [carriageReturn] <:+ line) :
    ¬ [carriageReturn] <:+ front.flatten ++ line := by
  intro hs
  cases line with
  | nil =>
    rw [List.append_nil] at hs
    have hnot := notMem_flatten_gutters (fun g hg => (gutters_clean g hg).2.2) hfront
    exact hnot (hs.subset (List.mem_singleton_self _))
  | cons c line =>
    exact h (List.suffix_of_suffix_length_le hs (List.suffix_append _ _) (Nat.succ_le_succ (Nat.zero_le _)))

theorem cleanTUILine_of_drawn (hd : Drawn line raw) (hgutter : ∀ g ∈ gutters, ¬ g <+: line)
    (hcr : ¬ [carriageReturn] <:+ line) : cleanTUILine raw = line := by
  obtain ⟨front, crs, hfront, rfl⟩ := hd
  rw [cleanTUILine, ← List.append_assoc, rdropWhile_append_replicate crs
    (not_suffix_flatten_append hfront hcr)]
  exact dropEncoded_flatten gutters_free (fun g hg => (gutters_clean g hg).1) hfront hgutter

theorem MessageLine.not_cr (h : MessageLine line) : ¬ [carriageReturn] <:+ line :=
  (trimmed_of_eq h.trimmed).back _ spaces_carriageReturn

theorem MessageLine.cleanTUILine_eq (h : MessageLine line) (hd : Drawn line raw) : cleanTUILine raw = line :=
  cleanTUILine_of_drawn hd h.no_gutter h.not_cr

theorem cleanTUILine_isInfix (s : Bytes) : cleanTUILine s <:+: s :=
  (dropEncoded_suffix gutters 0 _).isInfix.trans (List.rdropWhile_prefix _ s).isInfix

theorem isOpenLine.marker_in (h : isOpenLine line = true) : commitMsgMarkerOpen <:+: line :=
  (isOpenLine_iff.1 h).isInfix.trans (dropEncoded_suffix spaces 0 line).isInfix

theorem MessageLine.not_isOpenLine (h : MessageLine line) : isOpenLine line = false := by
  rw [← Bool.not_eq_true]
  exact fun hopen => h.no_open (isOpenLine.marker_in hopen)

/-- The front of a line of a message, as it is drawn, neither opens nor closes a block. -/
theorem MessageLine.clean_front (h : MessageLine line) (hd : Drawn line raw) (hp : p <+: raw) :
    isOpenLine (cleanTUILine p) = false ∧ ¬ commitMsgMarkerClose <:+: cleanTUILine p := by
  have hin : ∀ {sub}, sub <:+: cleanTUILine p → sub <:+: raw :=
    fun hs => (hs.trans (cleanTUILine_isInfix p)).trans hp.isInfix
  constructor
  · rw [← Bool.not_eq_true]
    intro hopen
    exact h.no_open (hd.marker_in isMarker_open (hin (isOpenLine.marker_in hopen)))
  · intro hclose
    exact h.no_close (hd.marker_in isMarker_close (hin hclose))

theorem messageLine_nil : MessageLine [] where
  trimmed := by decide
  one := List.not_mem_nil
  no_gutter := fun g hg hp => (gutters_clean g hg).1 (List.prefix_nil.1 hp)
  no_open := fun hin => absurd (List.infix_nil.1 hin) (by decide)
  no_close := fun hin => absurd (List.infix_nil.1 hin) (by decide)

/-! ### The line that opens the block -/

theorem not_prefix_bracket (line : Bytes) {g t : Bytes} (hne : g ≠ []) (hg : bracket ∉ g)
    (hline : ¬ g <+: line ∨ line = []) :
    ¬ g <+: line ++ bracket :: t := by
  intro hp
  have hfront := prefix_of_prefix_append_cons hg hp
  rcases hline with hline | rfl
  · exact hline hfront
  · exact hne (List.prefix_nil.1 hfront)

theorem trimSpaceBytes_open (h : MessageLine line) :
    trimSpaceBytes (commitMsgMarkerOpen ++ line) = commitMsgMarkerOpen ++ line := by
  apply Trimmed.trimSpaceBytes_eq
  constructor
  · intro e he
    rw [commitMsgMarkerOpen_eq, List.cons_append]
    exact not_prefix_bracket [] (spaces_clean e he).1 (spaces_clean e he).2 (.inr rfl)
  · intro e he hends
    have hlast : ∀ e ∈ spaces, e ≠ [] ∧ ¬ e <:+ commitMsgMarkerOpen ∧ (0x5D : UInt8) ∉ e := by decide
    obtain ⟨hne, hmarker, hclean⟩ := hlast e he
    rcases List.suffix_or_suffix_of_suffix hends (List.suffix_append _ _) with hin | ⟨c, rfl⟩
    · exact (trimmed_of_eq h.trimmed).back e he hin
    · rcases List.eq_nil_or_concat c with rfl | ⟨c, b, hcb⟩
      · exact (trimmed_of_eq h.trimmed).back _ he List.suffix_rfl
      · obtain rfl := hcb.trans List.concat_eq_append
        have hb : commitMsgMarkerOpen = ascii "[MANY-AI-CLI-COMMIT" ++ [0x5D] := by decide
        have hc : c ++ [b] <:+ commitMsgMarkerOpen := List.suffix_append_self_iff.1 hends
        rw [hb] at hc
        rcases List.suffix_concat_iff.1 hc with hnil | ⟨w, hw, -⟩
        · exact absurd hnil (by simp)
        · obtain ⟨-, hlast⟩ := List.append_inj' hw rfl
          obtain rfl := List.singleton_inj.1 hlast
          exact hclean (by simp)

theorem cleanTUILine_open (h : MessageLine line) (hd : Drawn (commitMsgMarkerOpen ++ line) raw) :
    cleanTUILine raw = commitMsgMarkerOpen ++ line := by
  apply cleanTUILine_of_drawn hd
  · intro g hg
    obtain ⟨hne, hclean, -⟩ := gutters_clean g hg
    rw [commitMsgMarkerOpen_eq, List.cons_append]
    exact not_prefix_bracket [] hne hclean (.inr rfl)
  · exact (trimmed_of_eq (trimSpaceBytes_open h)).back _ spaces_carriageReturn

theorem isOpenLine_open (h : MessageLine line) : isOpenLine (commitMsgMarkerOpen ++ line) = true := by
  rw [isOpenLine, trimSpaceBytes_open h]
  exact List.isPrefixOf_iff_prefix.2 (List.prefix_append _ line)

/-! ### The line with the closing marker -/

variable {leading tail : Bytes}

theorem cleanTUILine_close (h : MessageLine leading) (hfront : ∀ g ∈ front, g ∈ gutters) (tail : Bytes) :
    ∃ rest, cleanTUILine (front.flatten ++ (leading ++ (commitMsgMarkerClose ++ tail))) =
      leading ++ (commitMsgMarkerClose ++ rest) := by
  have hclose : ¬ [carriageReturn] <:+ commitMsgMarkerClose := by decide
  have hcr : ¬ [carriageReturn] <:+ front.flatten ++ (leading ++ commitMsgMarkerClose) := by
    intro hs
    rw [← List.append_assoc] at hs
    exact hclose (List.suffix_of_suffix_length_le hs (List.suffix_append _ _) (by decide))
  have hgo := rdropWhile_append_isPrefix (· = carriageReturn)
    (front.flatten ++ (leading ++ commitMsgMarkerClose)) tail
  rw [rdropWhile_of_not_suffix hcr] at hgo
  obtain ⟨rest, hrest⟩ := hgo
  refine ⟨rest, ?_⟩
  rw [List.append_assoc, List.append_assoc, List.append_assoc, List.append_assoc] at hrest
  rw [cleanTUILine, ← hrest]
  refine dropEncoded_flatten gutters_free (fun g hg => (gutters_clean g hg).1) hfront ?_
  intro g hg
  obtain ⟨hne, hclean, -⟩ := gutters_clean g hg
  rw [commitMsgMarkerClose_eq, List.cons_append]
  exact not_prefix_bracket leading hne hclean (.inl (h.no_gutter g hg))

theorem not_isOpenLine_close (h : MessageLine leading) (rest : Bytes) :
    isOpenLine (leading ++ (commitMsgMarkerClose ++ rest)) = false := by
  have hspaces : dropEncoded spaces 0 (leading ++ (commitMsgMarkerClose ++ rest)) =
      leading ++ (commitMsgMarkerClose ++ rest) := by
    apply dropEncoded_of_none
    intro e he
    obtain ⟨hne, hclean⟩ := spaces_clean e he
    rw [commitMsgMarkerClose_eq, List.cons_append]
    exact not_prefix_bracket leading hne hclean (.inl ((trimmed_of_eq h.trimmed).front e he))
  rw [← Bool.not_eq_true, isOpenLine_iff, hspaces]
  intro hopen
  cases hleading : leading with
  | nil =>
    rw [hleading, List.nil_append] at hopen
    have hlong : commitMsgMarkerOpen.length ≤ commitMsgMarkerClose.length := by decide
    have hshort := List.prefix_of_prefix_length_le hopen (List.prefix_append _ rest) hlong
    exact absurd hshort (by decide)
  | cons c leading' =>
    have hne : leading ≠ [] := by
      rw [hleading]
      exact List.cons_ne_nil c leading'
    have hrest : bracket ∉ ascii "MANY-AI-CLI-COMMIT]" := by decide
    rw [commitMsgMarkerClose_eq, commitMsgMarkerOpen_eq, List.cons_append] at hopen
    have hin := apart_first hrest leading hne List.suffix_rfl hopen
    rw [← commitMsgMarkerOpen_eq] at hin
    exact h.no_open hin.isInfix

/-- Up to where the closing marker is whole, none is there. -/
theorem no_close_of_short (h : MessageLine leading) (hfront : ∀ g ∈ front, g ∈ gutters)
    (hp : p <+: front.flatten ++ (leading ++ (commitMsgMarkerClose ++ tail)))
    (hshort : p.length < (front.flatten ++ (leading ++ commitMsgMarkerClose)).length) :
    ¬ commitMsgMarkerClose <:+: p := by
  rintro ⟨l, r, rfl⟩
  have hnot := notMem_flatten_gutters (fun g hg => (gutters_clean g hg).2.1) hfront
  have hnone : NoneIn commitMsgMarkerClose (front.flatten ++ leading) (commitMsgMarkerClose ++ tail) := by
    rw [commitMsgMarkerClose_eq, List.cons_append, noneIn_cons_iff (by decide), ←
      commitMsgMarkerClose_eq]
    intro hin
    have hdrawn : Drawn leading (front.flatten ++ leading) := ⟨front, 0, hfront, by simp⟩
    exact h.no_close (hdrawn.marker_in isMarker_close hin)
  rw [List.length_append, List.length_append, List.length_append, List.length_append] at hshort
  have hl := ((List.prefix_append l _).trans (List.prefix_append _ r)).trans hp
  have hbefore : front.flatten ++ leading <+: front.flatten ++ (leading ++ (commitMsgMarkerClose ++ tail)) :=
    by
    rw [← List.append_assoc]
    exact List.prefix_append _ _
  obtain ⟨u, hu⟩ := List.prefix_of_prefix_length_le hl hbefore (by rw [List.length_append]; omega)
  have hne : u ≠ [] := by
    rintro rfl
    rw [List.append_nil] at hu
    rw [hu, List.length_append] at hshort
    omega
  refine hnone u hne ⟨l, hu⟩ ?_
  rw [← List.append_assoc, ← hu, List.append_assoc, List.append_assoc] at hp
  exact (List.prefix_append _ r).trans ((List.prefix_append_right_inj l).1 hp)

/-! ### The buffer -/

theorem extractCommitMarker_of_open {buf : Bytes}
    (h : (buf.splitOn newline).map cleanTUILine = ls ++ line :: rest) (hline : isOpenLine line = true)
    (hrest : ∀ line ∈ rest, isOpenLine line = false) :
    extractCommitMarker buf = (upToClose rest).bind fun (inner, closeLeading) =>
      subjectAndBody (textLines (trimSpaceBytes ((trimSpaceBytes line).drop commitMsgMarkerOpen.length)) ++
        inner ++ textLines closeLeading) := by
  rw [extractCommitMarker, h, fromLastOpen_append hline hrest]
  cases hup : upToClose rest with
  | none => simp only [hup, Option.bind_none]
  | some closed => simp only [hup, Option.bind_some]

/-- With nothing after the only line that may open a block. -/
theorem extractCommitMarker_of_last {buf : Bytes} (h : (buf.splitOn newline).map cleanTUILine = ls ++ [line])
    (hls : ∀ line ∈ ls, isOpenLine line = false) : extractCommitMarker buf = none := by
  cases hline : isOpenLine line with
  | false =>
    have hnone : fromLastOpen (ls ++ [line]) = none := by
      apply fromLastOpen_eq_none
      intro l hl
      rcases List.mem_append.1 hl with hl | hl
      · exact hls l hl
      · rw [List.mem_singleton.1 hl, hline]
    rw [extractCommitMarker, h, hnone]
  | true =>
    rw [extractCommitMarker_of_open h hline (List.forall_mem_nil _)]
    rfl

theorem extractCommitMarker_of_not_closed {buf : Bytes}
    (h : (buf.splitOn newline).map cleanTUILine = ls ++ line :: rest) (hline : isOpenLine line = true)
    (hrest : ∀ line ∈ rest, isOpenLine line = false ∧ ¬ commitMsgMarkerClose <:+: line) :
    extractCommitMarker buf = none := by
  rw [extractCommitMarker_of_open h hline fun l hl => (hrest l hl).1, upToClose_eq_none fun l hl =>
    (hrest l hl).2]
  rfl

theorem extractCommitMarker_of_closed {buf opened : Bytes} {mids : List Bytes}
    (h : (buf.splitOn newline).map cleanTUILine =
      ls ++ (commitMsgMarkerOpen ++ opened) :: (mids ++ (leading ++ (commitMsgMarkerClose ++ tail)) :: rest))
    (hopened : MessageLine opened) (hmids : ∀ line ∈ mids, MessageLine line) (hleading : MessageLine leading)
    (hrest : ∀ line ∈ rest, isOpenLine line = false) :
    extractCommitMarker buf = subjectAndBody (textLines opened ++ mids ++ textLines leading) := by
  have hlater : ∀ line ∈ mids ++ (leading ++ (commitMsgMarkerClose ++ tail)) :: rest, isOpenLine line = false
    := by
    intro l hl
    rw [List.mem_append, List.mem_cons] at hl
    rcases hl with hl | rfl | hl
    · exact (hmids l hl).not_isOpenLine
    · exact not_isOpenLine_close hleading tail
    · exact hrest l hl
  rw [extractCommitMarker_of_open h (isOpenLine_open hopened) hlater,
    upToClose_append (fun l hl => (hmids l hl).no_close) hleading.no_close, trimSpaceBytes_open hopened,
    List.drop_left, hopened.trimmed, hleading.trimmed]
  rfl

/-- A text with a block: what is on the line of its opening marker, the lines between, and what is in front of
the closing marker. -/
structure HasBlock (opened : Bytes) (mids : List Bytes) (leading text : Bytes) : Prop where
  opened_line : MessageLine opened
  mid_lines : ∀ line ∈ mids, MessageLine line
  leading_line : MessageLine leading
  lines : ∃ (before : List Bytes) (openRaw : Bytes) (midRaws front : List Bytes) (tail : Bytes)
    (after : List Bytes),
    text.splitOn newline = before ++
      openRaw :: (midRaws ++ (front.flatten ++ (leading ++ (commitMsgMarkerClose ++ tail))) :: after) ∧
    Drawn (commitMsgMarkerOpen ++ opened) openRaw ∧ List.Forall₂ Drawn mids midRaws ∧
    (∀ g ∈ front, g ∈ gutters) ∧ ∀ line ∈ before ++ after, isOpenLine (cleanTUILine line) = false

theorem map_cleanTUILine {mids midRaws : List Bytes} (hmids : ∀ line ∈ mids, MessageLine line)
    (hd : List.Forall₂ Drawn mids midRaws) : midRaws.map cleanTUILine = mids := by
  induction hd with
  | nil => rfl
  | cons hline _ ih =>
    rw [List.map_cons, (hmids _ (List.mem_cons_self ..)).cleanTUILine_eq hline,
      ih fun l hl => hmids l (List.mem_cons_of_mem _ hl)]

theorem exists_drawn {mids midRaws : List Bytes} (hd : List.Forall₂ Drawn mids midRaws)
    (hraw : raw ∈ midRaws) :
    ∃ line ∈ mids, Drawn line raw := by
  induction hd with
  | nil => exact absurd hraw List.not_mem_nil
  | cons hline _ ih =>
    rcases List.mem_cons.1 hraw with rfl | hraw
    · exact ⟨_, List.mem_cons_self .., hline⟩
    · obtain ⟨line, hl, hdrawn⟩ := ih hraw
      exact ⟨line, List.mem_cons_of_mem _ hl, hdrawn⟩

theorem append_cons_eq_append {a b : List Bytes} {l : Bytes} {c d : List Bytes} (h : a ++ l :: b = c ++ d) :
    (∃ u, c = a ++ l :: u) ∨ ∃ u, a = c ++ u ∧ d = u ++ l :: b := by
  rcases List.append_eq_append_iff.1 h with ⟨u, rfl, hu⟩ | ⟨u, rfl, hu⟩
  · cases u with
    | nil => exact .inr ⟨[], by simp, by simpa using hu.symm⟩
    | cons x u =>
      obtain ⟨rfl, -⟩ := List.cons_eq_cons.1 hu
      exact .inl ⟨u, rfl⟩
  · exact .inr ⟨u, rfl, hu⟩

namespace HasBlock

variable {opened text buf : Bytes} {mids : List Bytes}

theorem extractCommitMarker_eq (h : HasBlock opened mids leading text) :
    extractCommitMarker text = subjectAndBody (textLines opened ++ mids ++ textLines leading) := by
  obtain ⟨before, openRaw, midRaws, front, tail, after, hlines, hopen, hmids, hfront, hothers⟩ := h.lines
  obtain ⟨rest, hclose⟩ := cleanTUILine_close h.leading_line hfront tail
  have hclean : (text.splitOn newline).map cleanTUILine = before.map cleanTUILine ++
    (commitMsgMarkerOpen ++ opened) ::
      (mids ++ (leading ++ (commitMsgMarkerClose ++ rest)) :: after.map cleanTUILine) := by
    rw [hlines, List.map_append, List.map_cons, List.map_append, List.map_cons,
      cleanTUILine_open h.opened_line hopen, map_cleanTUILine h.mid_lines hmids, hclose]
  refine extractCommitMarker_of_closed hclean h.opened_line h.mid_lines h.leading_line ?_
  rw [List.forall_mem_map]
  exact fun line hl => hothers line (List.mem_append_right _ hl)

/-- Read in part, there is nothing yet or it is already the message. -/
theorem extractCommitMarker_of_front (h : HasBlock opened mids leading text) (hb : buf <+: text) :
    extractCommitMarker buf = none ∨
      extractCommitMarker buf = subjectAndBody (textLines opened ++ mids ++ textLines leading) := by
  obtain ⟨before, openRaw, midRaws, front, tail, after, hlines, hopen, hmids, hfront, hothers⟩ := h.lines
  have hbefore : ∀ line ∈ before, isOpenLine (cleanTUILine line) = false :=
    fun line hl => hothers line (List.mem_append_left _ hl)
  have hafter : ∀ line ∈ after, isOpenLine (cleanTUILine line) = false :=
    fun line hl => hothers line (List.mem_append_right _ hl)
  obtain ⟨whole, p, line, more, hsplit, htext, hp⟩ := splitOn_of_prefix newline hb
  have hclean : (buf.splitOn newline).map cleanTUILine = whole.map cleanTUILine ++ [cleanTUILine p] := by
    rw [hsplit, List.map_append, List.map_singleton]
  -- by the line in which the buffer ends
  rcases append_cons_eq_append (htext.symm.trans hlines) with ⟨u, rfl⟩ | ⟨u, rfl, hu⟩
  · left
    apply extractCommitMarker_of_last hclean
    rw [List.forall_mem_map]
    exact fun l hl => hbefore l (List.mem_append_left _ hl)
  · cases u with
    | nil =>
      left
      apply extractCommitMarker_of_last hclean
      rw [List.append_nil, List.forall_mem_map]
      exact hbefore
    | cons l u =>
      obtain ⟨rfl, hlater⟩ := List.cons_eq_cons.1 hu
      have hmid : ∀ raw ∈ midRaws, ∀ p, p <+: raw →
          isOpenLine (cleanTUILine p) = false ∧ ¬ commitMsgMarkerClose <:+: cleanTUILine p := by
        intro raw hraw p hp
        obtain ⟨line, hl, hd⟩ := exists_drawn hmids hraw
        exact (h.mid_lines line hl).clean_front hd hp
      rw [List.map_append, List.map_cons, cleanTUILine_open h.opened_line hopen, List.append_assoc,
        List.cons_append] at hclean
      have hisOpen := isOpenLine_open h.opened_line
      rcases append_cons_eq_append hlater.symm with ⟨v, rfl⟩ | ⟨v, rfl, hv⟩
      · left
        apply extractCommitMarker_of_not_closed hclean hisOpen
        intro l hl
        rw [List.mem_append, List.mem_map, List.mem_singleton] at hl
        rcases hl with ⟨raw, hraw, rfl⟩ | rfl
        · exact hmid raw (List.mem_append_left _ hraw) raw List.prefix_rfl
        · exact hmid line (List.mem_append_right _ (List.mem_cons_self ..)) p hp
      · rw [List.map_append, map_cleanTUILine h.mid_lines hmids] at hclean
        cases v with
        | nil =>
          rw [List.nil_append] at hv
          obtain ⟨rfl, -⟩ := List.cons_eq_cons.1 hv
          rw [List.map_nil, List.append_nil] at hclean
          rcases Nat.lt_or_ge p.length (front.flatten ++ (leading ++ commitMsgMarkerClose)).length with
            hshort | hlong
          · left
            apply extractCommitMarker_of_not_closed hclean hisOpen
            intro l hl
            rw [List.mem_append, List.mem_singleton] at hl
            rcases hl with hl | rfl
            · exact ⟨(h.mid_lines l hl).not_isOpenLine, (h.mid_lines l hl).no_close⟩
            · obtain ⟨rest, hclose⟩ := cleanTUILine_close h.leading_line hfront tail
              constructor
              · refine not_isOpenLine_of_front ?_ hp
                rw [hclose]
                exact not_isOpenLine_close h.leading_line rest
              · intro hin
                exact no_close_of_short h.leading_line hfront hp hshort (hin.trans (cleanTUILine_isInfix p))
          · right
            have hfull : front.flatten ++ (leading ++ commitMsgMarkerClose) <+:
                front.flatten ++ (leading ++ (commitMsgMarkerClose ++ tail)) := ⟨tail, by simp⟩
            obtain ⟨tail', rfl⟩ := List.prefix_of_prefix_length_le hfull hp hlong
            rw [List.append_assoc, List.append_assoc] at hclean
            obtain ⟨rest, hclose⟩ := cleanTUILine_close h.leading_line hfront tail'
            rw [hclose] at hclean
            exact extractCommitMarker_of_closed hclean h.opened_line h.mid_lines h.leading_line
              (List.forall_mem_nil _)
        | cons l v =>
          obtain ⟨rfl, hafter_eq⟩ := List.cons_eq_cons.1 hv
          right
          obtain ⟨rest, hclose⟩ := cleanTUILine_close h.leading_line hfront tail
          rw [List.map_cons, hclose, List.append_assoc, List.cons_append] at hclean
          refine extractCommitMarker_of_closed hclean h.opened_line h.mid_lines h.leading_line ?_
          intro l hl
          rw [List.mem_append, List.mem_map, List.mem_singleton] at hl
          rcases hl with ⟨raw, hraw, rfl⟩ | rfl
          · exact hafter raw (hafter_eq ▸ List.mem_append_left _ hraw)
          · exact not_isOpenLine_of_front
              (hafter line (hafter_eq ▸ List.mem_append_right _ (List.mem_cons_self ..))) hp

end HasBlock

/-! ### Subject and body -/

theorem MessageLine.isBlank_iff (h : MessageLine line) : isBlank line = true ↔ line = [] := by
  rw [isBlank, h.trimmed, decide_eq_true_iff]

/-- An empty line at the end makes no difference. -/
theorem trimSpaceBytes_joinLines_append_nil (ls : List Bytes) :
    trimSpaceBytes (joinLines (ls ++ [[]])) = trimSpaceBytes (joinLines ls) := by
  cases ls with
  | nil => rfl
  | cons l ls =>
    rw [joinLines, intercalate_append_nil (List.cons_ne_nil l ls), trimSpaceBytes_newline]
    rfl

theorem trimSpaceBytes_joinLines_rdropWhile (h : ∀ line ∈ ls, MessageLine line) :
    trimSpaceBytes (joinLines (ls.rdropWhile isBlank)) = trimSpaceBytes (joinLines ls) := by
  induction ls using List.reverseRecOn with
  | nil => rfl
  | append_singleton ls line ih =>
    rw [List.forall_mem_append, List.forall_mem_singleton] at h
    by_cases hblank : isBlank line = true
    · rw [List.rdropWhile_concat_pos _ _ _ hblank, ih h.1, h.2.isBlank_iff.1 hblank,
        trimSpaceBytes_joinLines_append_nil]
    · rw [List.rdropWhile_concat_neg _ _ _ hblank]

theorem rdropWhile_cons_of_not {first : Bytes} (h : ¬ isBlank first = true) (ls : List Bytes) :
    (first :: ls).rdropWhile isBlank = first :: ls.rdropWhile isBlank := by
  induction ls using List.reverseRecOn with
  | nil => exact List.rdropWhile_concat_neg _ [] _ h
  | append_singleton ls line ih =>
    rw [← List.cons_append]
    by_cases hblank : isBlank line = true
    · rw [List.rdropWhile_concat_pos _ _ _ hblank, List.rdropWhile_concat_pos _ _ _ hblank, ih]
    · rw [List.rdropWhile_concat_neg _ _ _ hblank, List.rdropWhile_concat_neg _ _ _ hblank, List.cons_append]

namespace Message

variable {m : Message} {inner : List Bytes}

theorem subjectAndBody_cons (hbody : ∀ line ∈ ls, MessageLine line) :
    subjectAndBody (m.subject :: ls) = some (m.subject, trimSpaceBytes (joinLines ls)) := by
  have hblank : ¬ isBlank m.subject = true := fun h => m.subject_ne (m.subject_line.isBlank_iff.1 h)
  rw [subjectAndBody, List.dropWhile_cons_of_neg hblank, rdropWhile_cons_of_not hblank]
  show (if trimSpaceBytes m.subject = [] then none else some (trimSpaceBytes m.subject, _)) = _
  rw [m.subject_line.trimmed, if_neg m.subject_ne, trimSpaceBytes_joinLines_rdropWhile hbody]

/-- The lines of the block are those of the message, or but for an empty one at its end. -/
theorem subjectAndBody_eq (h : m.subject :: m.body = inner ∨ m.subject :: m.body = inner ++ [[]]) :
    subjectAndBody inner = some (m.subject, trimSpaceBytes (joinLines m.body)) := by
  rcases h with rfl | h
  · exact subjectAndBody_cons m.body_lines
  · cases inner with
    | nil => exact absurd (List.cons_eq_cons.1 h).1 m.subject_ne
    | cons l inner =>
      obtain ⟨rfl, hbody⟩ := List.cons_eq_cons.1 (h.trans (List.cons_append ..))
      have hlines : ∀ line ∈ inner, MessageLine line := by
        intro line hl
        apply m.body_lines
        rw [hbody]
        exact List.mem_append_left _ hl
      rw [subjectAndBody_cons hlines, hbody, trimSpaceBytes_joinLines_append_nil]

theorem textLines_nil : textLines [] = [] := rfl

theorem textLines_of_ne (h : line ≠ []) : textLines line = [line] := if_neg h

/-- The line that opens the block, and those after it up to the last of the message. -/
theorem openLines_eq (m : Message) (dropFirst : Bool) : ∃ opened more,
    m.openLines dropFirst = (commitMsgMarkerOpen ++ opened) :: more ∧ MessageLine opened ∧
    (∀ line ∈ more, MessageLine line) ∧ m.subject :: m.body = textLines opened ++ more ∧
    (more = [] → dropFirst = true ∧ m.body = []) := by
  cases dropFirst with
  | true =>
    refine ⟨m.subject, m.body, rfl, m.subject_line, m.body_lines, ?_, fun h => ⟨rfl, h⟩⟩
    rw [textLines_of_ne m.subject_ne]
    rfl
  | false =>
    refine ⟨[], m.subject :: m.body, ?_, messageLine_nil, ?_, rfl, fun h => absurd h (List.cons_ne_nil _ _)⟩
    · rw [List.append_nil]
      rfl
    · rw [List.forall_mem_cons]
      exact ⟨m.subject_line, m.body_lines⟩

/-- The block as the lines it is made of, if it does not fall together into one line. -/
theorem blockLines_eq {dropFirst dropLast : Bool} (h : ¬ (dropFirst = true ∧ dropLast = true ∧ m.body = [])) :
    ∃ opened mids leading, m.blockLines dropFirst dropLast = (commitMsgMarkerOpen ++ opened) :: mids ∧
      m.closeLine dropFirst dropLast = leading ++ commitMsgMarkerClose ∧ MessageLine opened ∧
      (∀ line ∈ mids, MessageLine line) ∧ MessageLine leading ∧
      subjectAndBody (textLines opened ++ mids ++ textLines leading) =
        some (m.subject, trimSpaceBytes (joinLines m.body)) := by
  obtain ⟨opened, more, hlines, hopened, hmore, hcontent, hone⟩ := m.openLines_eq dropFirst
  cases dropLast with
  | false =>
    refine ⟨opened, more, [], hlines, rfl, hopened, hmore, messageLine_nil, subjectAndBody_eq (.inl ?_)⟩
    rw [hcontent, textLines_nil, List.append_nil]
  | true =>
    rcases List.eq_nil_or_concat more with rfl | ⟨mids, leading, hmids⟩
    · obtain ⟨hfirst, hbody⟩ := hone rfl
      exact absurd ⟨hfirst, rfl, hbody⟩ h
    · obtain rfl := hmids.trans List.concat_eq_append
      rw [List.forall_mem_append, List.forall_mem_singleton] at hmore
      refine ⟨opened, mids, leading, ?_, ?_, hopened, hmore.1, hmore.2, subjectAndBody_eq ?_⟩
      · rw [blockLines, if_pos rfl, hlines, ← List.cons_append, List.dropLast_concat]
      · rw [closeLine, if_pos rfl, hlines, ← List.cons_append, List.getLastD_concat]
      · rw [hcontent]
        by_cases hempty : leading = []
        · right
          rw [hempty, textLines_nil, List.append_nil, List.append_assoc]
        · left
          rw [textLines_of_ne hempty, List.append_assoc]

end Message

theorem gutters_newline : ∀ g ∈ gutters, newline ∉ g := by decide

theorem Drawn.one (hd : Drawn line raw) (h : newline ∉ line) : newline ∉ raw := by
  obtain ⟨front, crs, hfront, rfl⟩ := hd
  rw [List.mem_append, List.mem_append, not_or, not_or]
  refine ⟨notMem_flatten_gutters gutters_newline hfront, h, fun hcr => ?_⟩
  exact absurd (List.eq_of_mem_replicate hcr) (by decide)

theorem hasBlock_of_isStream {m : Message} {dropFirst dropLast : Bool} {text : Bytes}
    {before drawn after : List Bytes}
    (hstream : IsStream m dropFirst dropLast text before drawn after front tail)
    (h : ¬ (dropFirst = true ∧ dropLast = true ∧ m.body = [])) : ∃ opened mids leading,
      HasBlock opened mids leading text ∧ subjectAndBody (textLines opened ++ mids ++ textLines leading) =
        some (m.subject, trimSpaceBytes (joinLines m.body)) := by
  obtain ⟨opened, mids, leading, hblock, hclose, hopened, hmids, hleading, heq⟩ := m.blockLines_eq h
  refine ⟨opened, mids, leading, ⟨hopened, hmids, hleading, ?_⟩, heq⟩
  have hdrawn := hstream.drawn_lines
  rw [hblock] at hdrawn
  cases hdrawn with | @cons _ openRaw _ midRaws hopen hmidRaws
  refine ⟨before, openRaw, midRaws, front, tail, after, ?_, hopen, hmidRaws, hstream.front_gutters,
    fun line hl => (hstream.others line hl).2⟩
  have htext := hstream.text_eq
  rw [hclose, List.append_assoc, List.append_assoc, List.cons_append] at htext
  rw [htext]
  refine List.splitOn_intercalate newline ?_ (by simp)
  have hmarkers : newline ∉ commitMsgMarkerOpen ∧ newline ∉ commitMsgMarkerClose := by decide
  have hfrom : ∀ {l : Bytes}, newline ∉ l → newline ∉ commitMsgMarkerOpen ++ l := by
    intro l hl
    rw [List.mem_append, not_or]
    exact ⟨hmarkers.1, hl⟩
  intro line hl
  rw [List.mem_append, List.mem_cons, List.mem_append, List.mem_cons] at hl
  rcases hl with hl | rfl | hl | rfl | hl
  · exact (hstream.others line (List.mem_append_left _ hl)).1
  · exact hopen.one (hfrom hopened.one)
  · obtain ⟨l, hlmem, hd⟩ := exists_drawn hmidRaws hl
    exact hd.one (hmids l hlmem).one
  · rw [List.mem_append, List.mem_append, List.mem_append, not_or, not_or, not_or]
    exact ⟨notMem_flatten_gutters gutters_newline hstream.front_gutters, hleading.one, hmarkers.2,
      hstream.tail_one⟩
  · exact (hstream.others line (List.mem_append_right _ hl)).1

/-! ### The chunks -/

theorem handleAll_not_awaiting {ses : Await} (h : ses.await = false) (chunks : List (ℕ × Bytes)) :
    handleAll ses chunks = [] := by
  induction chunks with
  | nil => rfl
  | cons chunk chunks ih =>
    obtain ⟨now, cleanText⟩ := chunk
    rw [handleAll, handleCommitMsgChunk, h]
    exact ih

/-- What a chunk in time does. -/
theorem handleCommitMsgChunk_of_await {ses : Await} {now : ℕ} {cleanText : Bytes} (hawait : ses.await = true)
    (htime : now ≤ ses.deadline) (hfits : (ses.buf ++ cleanText).length ≤ commitMsgScanBufMax) :
    ∃ progressed, handleCommitMsgChunk ses now cleanText =
      match extractCommitMarker (ses.buf ++ cleanText) with
      | none => ({ ses with buf := ses.buf ++ cleanText, progressed := ses.progressed || progressed },
          if progressed then [.progress] else [])
      | some (subject, body) =>
        ({ ses with await := false, buf := [], progressed := ses.progressed || progressed },
          [.suggested (sanitizeCommitMessage subject gitCommitSubjectMaxLen)
            (sanitizeCommitMessage body gitCommitBodyMaxLen)]) := by
  refine ⟨!ses.progressed && trimSpaceBytes cleanText ≠ [], ?_⟩
  rw [handleCommitMsgChunk, hawait, if_neg (by decide), if_neg (Nat.not_lt.2 htime)]
  cases hfound : extractCommitMarker (ses.buf ++ cleanText) with
  | none => simp only [if_neg (Nat.not_lt.2 hfits), hfound]
  | some found => simp only [if_neg (Nat.not_lt.2 hfits), hfound]

/-- Every front of the text has nothing or the message, and the whole text has it. -/
theorem suggestions_handleAll {text subject body : Bytes} (hfits : text.length ≤ commitMsgScanBufMax)
    (hpart : ∀ buf, buf <+: text → extractCommitMarker buf = none ∨ extractCommitMarker buf = some
      (subject, body))
    (hwhole : extractCommitMarker text = some (subject, body)) {chunks : List (ℕ × Bytes)} {ses : Await}
    (htext : ses.buf ++ (chunks.map Prod.snd).flatten = text) (hawait : ses.await = true)
    (hnone : extractCommitMarker ses.buf = none) (htime : ∀ chunk ∈ chunks, chunk.1 ≤ ses.deadline) :
    suggestions (handleAll ses chunks) =
      [.suggested (sanitizeCommitMessage subject gitCommitSubjectMaxLen)
        (sanitizeCommitMessage body gitCommitBodyMaxLen)] := by
  induction chunks generalizing ses with
  | nil =>
    rw [List.map_nil, List.flatten_nil, List.append_nil] at htext
    rw [htext, hwhole] at hnone
    exact absurd hnone (by simp)
  | cons chunk chunks ih =>
    obtain ⟨now, cleanText⟩ := chunk
    rw [List.forall_mem_cons] at htime
    rw [List.map_cons, List.flatten_cons, ← List.append_assoc] at htext
    have hfront : ses.buf ++ cleanText <+: text := ⟨_, htext⟩
    obtain ⟨progressed, hchunk⟩ := handleCommitMsgChunk_of_await hawait htime.1
      (hfront.length_le.trans hfits)
    rw [handleAll, hchunk]
    rcases hpart _ hfront with hbuf | hbuf
    · rw [hbuf]
      have hrest := @ih { ses with buf := ses.buf ++ cleanText, progressed := ses.progressed || progressed }
        htext
        hawait hbuf htime.2
      cases progressed
      · exact hrest
      · exact hrest
    · rw [hbuf]
      show suggestions (_ ++ handleAll _ chunks) = _
      rw [handleAll_not_awaiting rfl]
      rfl

/-! ### Whether the message is suggested -/

/-- The message on one line with both markers. -/
def oneLine (m : Message) : Bytes := commitMsgMarkerOpen ++ m.subject ++ commitMsgMarkerClose

theorem isStream_oneLine {m : Message} (h : m.body = []) : IsStream m true true (oneLine m) [] [] [] [] []
    where
  text_eq := by simp [oneLine, joinLines, Message.closeLine, Message.openLines, h]
  drawn_lines := by
    rw [Message.blockLines, if_pos rfl, Message.openLines, if_pos rfl, h]
    exact .nil
  front_gutters := List.forall_mem_nil _
  tail_one := List.not_mem_nil
  others := List.forall_mem_nil _

theorem oneLine_isInfix {m : Message} (h : m.body = []) {before after : List Bytes} :
    oneLine m <:+: joinLines (before ++ (front.flatten ++ (m.closeLine true true ++ tail)) :: after) := by
  have hline : oneLine m <:+: front.flatten ++ (m.closeLine true true ++ tail) := by
    refine ⟨front.flatten, tail, ?_⟩
    simp [oneLine, Message.closeLine, Message.openLines, h]
  exact hline.trans (infix_intercalate (by simp))

theorem extractCommitMarker_oneLine (m : Message) : extractCommitMarker (oneLine m) = none := by
  have hone : newline ∉ oneLine m := by
    have hmarkers : newline ∉ commitMsgMarkerOpen ∧ newline ∉ commitMsgMarkerClose := by decide
    rw [oneLine, List.mem_append, List.mem_append, not_or, not_or]
    exact ⟨⟨hmarkers.1, m.subject_line.one⟩, hmarkers.2⟩
  have hlines : ((oneLine m).splitOn newline).map cleanTUILine = [] ++ [cleanTUILine (oneLine m)] := by
    rw [List.splitOn_eq_singleton hone]
    rfl
  exact extractCommitMarker_of_last hlines (List.forall_mem_nil _)

theorem not_suggested_oneLine {m : Message} (hbody : m.body = [])
    (hfits : (oneLine m).length ≤ commitMsgScanBufMax) : ¬ Suggested m true true := by
  intro hall
  have hsuggested := hall (oneLine m) [] [] [] [] [] (isStream_oneLine hbody) hfits [(0, oneLine m)] (by simp)
    ⟨true, 0, [], [], true⟩ ⟨rfl, rfl⟩ (by simp)
  obtain ⟨progressed, hchunk⟩ :=
    @handleCommitMsgChunk_of_await ⟨true, 0, [], [], true⟩ 0 (oneLine m) rfl le_rfl hfits
  rw [List.nil_append, extractCommitMarker_oneLine] at hchunk
  rw [handleAll, hchunk] at hsuggested
  cases progressed with
  | false => exact absurd hsuggested (by simp [suggestions, handleAll])
  | true => exact absurd hsuggested (by simp [suggestions, handleAll])

/-- The message is suggested however it is drawn and cut, but for one of one line with both breaks dropped. -/
theorem suggested_iff_not_one_line (m : Message) (dropFirst dropLast : Bool) : Suggested m dropFirst dropLast
    ↔
    ¬ (dropFirst = true ∧ dropLast = true ∧ m.body = [] ∧
      (commitMsgMarkerOpen ++ m.subject ++ commitMsgMarkerClose).length ≤ commitMsgScanBufMax) := by
  constructor
  · rintro hall ⟨rfl, rfl, hbody, hfits⟩
    exact not_suggested_oneLine hbody hfits hall
  · intro h text before drawn after front tail hstream hfits chunks htext ses hfresh htime
    have hsplit : ¬ (dropFirst = true ∧ dropLast = true ∧ m.body = []) := by
      rintro ⟨rfl, rfl, hbody⟩
      refine h ⟨rfl, rfl, hbody, le_trans ?_ hfits⟩
      rw [hstream.text_eq]
      exact (oneLine_isInfix hbody).length_le
    obtain ⟨opened, mids, leading, hblock, heq⟩ := hasBlock_of_isStream hstream hsplit
    have hpart : ∀ buf, buf <+: text → _ := fun buf hb => hblock.extractCommitMarker_of_front hb
    rw [heq] at hpart
    refine suggestions_handleAll hfits hpart (hblock.extractCommitMarker_eq.trans heq) ?_ hfresh.1 ?_ htime
    · rw [hfresh.2, List.nil_append, htext]
    · rw [hfresh.2]
      decide

/-- A message of one line, as an AI session may write it. -/
def fixMessage : Message where
  subject := ascii "fix: x"
  body := []
  subject_ne := by decide
  subject_line := by
    constructor
    · decide
    · decide
    · decide
    · decide
    · decide
  body_lines := List.forall_mem_nil _

theorem fixMessage_lost : ¬ ∀ (m : Message) (dropFirst dropLast : Bool), Suggested m dropFirst dropLast := by
  intro hall
  have hfits : (oneLine fixMessage).length ≤ commitMsgScanBufMax := by decide
  exact not_suggested_oneLine rfl hfits (hall fixMessage true true)

end ManyAiCli.Hub.CommitMessage
