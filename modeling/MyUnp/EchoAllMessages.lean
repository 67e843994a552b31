import MyUnp.AccessSpan
import MyUnp.EchoAllClient

namespace MyUnp.EchoAllMessages

open MyUnp.AccessSpan MyUnp.Decimal MyUnp.EchoAllClient MyUnp.LinePieces MyUnp.MemoryBlock
open MyUnp.TransitionSystem
open MyUnp.SctpEchoServer (Vars)
open MyUnp.Unp hiding MAXLINE

abbrev Line := {line : List Byte // line.length < MAXLINE}

abbrev Block := List Byte

def cleared (below : Byte) : Block := below :: List.replicate MAXLINE 0

def readLine (block : Block) (line : Line) : Block × Nat := chop (store block 1 (line.1 ++ [0]))

def suffix (i : Nat) : List Byte := msgText ++ decimal i

def written (block : Block) (line : Line) : Nat → Block
  | 0 => (readLine block line).1
  | i + 1 =>
      let off := (readLine block line).2
      snprintf (written block line i) off (MAXLINE + 1 - off) (suffix i)

def afterLines (below : Byte) (hist : List Line) : Block :=
  hist.foldl (fun block line => written block line SRV_MAX_SCTP_STRM) (cleared below)

def message (below : Byte) (hist : List Line) (line : Line) (i : Nat) : List Byte :=
  (written (afterLines below hist) line (i + 1)).drop 1

def withoutNewline (s : List Byte) : List Byte :=
  if s.getLast? = some newline then s.dropLast else s

/-- The elements of `sendline` that the line and its messages touch: `fgets`, `strlen`,
the test for the newline, and `snprintf` and `sctp_sendmsg` for each stream. -/
def touched (block : Block) (line : Line) : List Span :=
  let str_sz := (cString ((store block 1 (line.1 ++ [0])).drop 1)).length
  let off := (readLine block line).2
  [.front (line.1.length + 1), .front (str_sz + 1), .cell (str_sz - 1)] ++
    (List.range SRV_MAX_SCTP_STRM).flatMap fun i =>
      [⟨off - 1, min ((suffix i).length + 1) (MAXLINE + 1 - off)⟩, .front MAXLINE]

/-- The messages, as they are read, are the line with the suffixes, the accesses stay in
`sendline`, and the messages do not depend on earlier lines. -/
structure Contract (reading : List Byte → List Byte) (below : Byte) (hist : List Line)
    (line : Line) : Prop where
  exact : ∀ i < SRV_MAX_SCTP_STRM,
    reading (message below hist line i) =
      (withoutNewline line.1 ++ suffix i).take (MAXLINE - 1)
  inside : Inside MAXLINE (touched (afterLines below hist) line)
  alike : ∀ hist', ∀ i < SRV_MAX_SCTP_STRM,
    message below hist' line i = message below hist line i

structure BlockOk (block : Block) : Prop where
  length_eq : block.length = MAXLINE + 1
  last : block.getLast? = some 0

theorem cleared_ok (below : Byte) : BlockOk (cleared below) where
  length_eq := by rw [cleared, List.length_cons, List.length_replicate]
  last := by
    rw [cleared, List.getLast?_cons, List.getLast?_replicate]
    rfl

namespace BlockOk

variable {block : Block}

theorem store (h : BlockOk block) {offset : Nat} {data : List Byte}
    (hfit : offset + data.length ≤ MAXLINE) :
    BlockOk (store block offset (data ++ [0])) where
  length_eq := (store_length _ _ _).trans h.length_eq
  last := store_getLast? (by rw [h.length_eq]; omega) h.last

theorem chop (h : BlockOk block) : BlockOk (chop block).1 := by
  refine ⟨(chop_length block).trans h.length_eq, ?_⟩
  have hlast := h.last
  unfold EchoAllClient.chop
  dsimp only
  split_ifs
  · rw [List.getLast?_eq_getElem?] at hlast ⊢
    rw [List.length_set, List.getElem?_set]
    split_ifs with heq hlt
    · rfl
    · rw [List.getElem?_eq_none (by omega)] at hlast
      cases hlast
    · exact hlast
  · exact hlast

theorem snprintf (h : BlockOk block) {dst : Nat} {text : List Byte} :
    BlockOk (snprintf block dst (MAXLINE + 1 - dst) text) := by
  rw [EchoAllClient.snprintf]
  split_ifs with hsize
  · exact h
  · apply h.store
    rw [List.length_take]
    omega

theorem written (h : BlockOk block) (line : Line) (i : Nat) : BlockOk (written block line i) := by
  induction i with
  | zero =>
      have hline := line.2
      exact (h.store (by omega)).chop
  | succ i ih => exact ih.snprintf

theorem exists_cons (h : BlockOk block) :
    ∃ b cells, block = b :: cells ∧ cells.length = MAXLINE := by
  obtain ⟨b, cells, rfl⟩ := List.exists_cons_of_length_eq_add_one h.length_eq
  exact ⟨b, cells, rfl, Nat.succ_inj.mp h.length_eq⟩

theorem drop_eq (h : BlockOk block) : block.drop MAXLINE = [0] := by
  obtain ⟨front, rfl⟩ := List.getLast?_eq_some_iff.mp h.last
  have hlen := h.length_eq
  rw [List.length_append, List.length_singleton] at hlen
  exact List.drop_left' (Nat.succ_inj.mp hlen)

end BlockOk

theorem afterLines_snoc (below : Byte) (hist : List Line) (line : Line) :
    afterLines below (hist ++ [line]) =
      written (afterLines below hist) line SRV_MAX_SCTP_STRM :=
  List.foldl_append

theorem afterLines_ok (below : Byte) (hist : List Line) : BlockOk (afterLines below hist) := by
  induction hist using List.reverseRecOn with
  | nil => exact cleared_ok below
  | append_singleton hist line ih =>
      rw [afterLines_snoc]
      exact ih.written line _

section Texts

variable (line : Line) {i : Nat}

theorem suffix_length (hi : i < SRV_MAX_SCTP_STRM) : (suffix i).length = 6 := by
  have hdigit : i < 10 := hi
  rw [suffix, decimal, decimalDigits, if_pos hdigit]
  rfl

theorem zero_not_mem_suffix (i : Nat) : (0 : Byte) ∉ suffix i := by
  rw [suffix, List.mem_append, not_or]
  refine ⟨by decide, fun hmem => ?_⟩
  exact absurd (decimal_isDigit i 0 hmem) (by decide)

def text : List Byte := withoutNewline (cString line.1)

theorem text_prefix_cString : text line <+: cString line.1 := by
  rw [text, withoutNewline]
  split_ifs
  · exact List.dropLast_prefix _
  · exact List.prefix_rfl

theorem text_length_lt : (text line).length < MAXLINE := by
  have hline := line.2
  have htext := (text_prefix_cString line).length_le
  have hstr := (cString_prefix_self line.1).length_le
  omega

def cut (i : Nat) : List Byte := (suffix i).take (MAXLINE - 1 - (text line).length)

def reach : Nat :=
  max (line.1.length + 1) ((text line).length + min 6 (MAXLINE - 1 - (text line).length) + 1)

def front (i : Nat) : List Byte :=
  text line ++ cut line i ++ [0] ++
    (line.1 ++ [0]).drop ((text line).length + (cut line i).length + 1)

theorem cut_length (hi : i < SRV_MAX_SCTP_STRM) :
    (cut line i).length = min 6 (MAXLINE - 1 - (text line).length) := by
  rw [cut, List.length_take, suffix_length hi, Nat.min_comm]

end Texts

section Cells

variable (below : Byte) {cells : List Byte} {line : Line} {i : Nat}

theorem chop_spec (content : List Byte) (hne : cString content ≠ []) :
    ∃ r, chop (below :: content) =
        (below :: (withoutNewline (cString content) ++ r),
          1 + (withoutNewline (cString content)).length) ∧
      r.drop 1 = content.drop ((withoutNewline (cString content)).length + 1) := by
  obtain ⟨back, hback⟩ := cString_prefix_self content
  obtain ⟨front, last, hstr⟩ := (List.eq_nil_or_concat' _).resolve_left hne
  obtain rfl : content = front ++ last :: back := by
    rw [hstr, List.append_assoc] at hback
    exact hback.symm
  have hoff : 1 + (front ++ [last]).length - 1 = front.length + 1 := by
    rw [List.length_append, List.length_singleton]
    omega
  have hcell : (below :: (front ++ last :: back))[front.length + 1]? = some last := by
    rw [List.getElem?_cons_succ, List.getElem?_append_right (Nat.le_refl _), Nat.sub_self]
    rfl
  rw [chop, List.drop_one, List.tail_cons, withoutNewline, hstr, List.getLast?_concat]
  rw [hoff, hcell]
  by_cases hlast : last = newline
  · rw [if_pos (by rw [hlast]), if_pos (by rw [hlast]), List.dropLast_concat]
    refine ⟨0 :: back, ?_, ?_⟩
    · rw [List.set_cons_succ, List.set_append_right _ _ (Nat.le_refl _), Nat.sub_self,
        Nat.add_comm 1]
      rfl
    · rw [List.drop_append, List.drop_eq_nil_of_le (Nat.le_succ _), Nat.add_sub_cancel_left]
      rfl
  · rw [if_neg (by simpa using hlast), if_neg (by simpa using hlast)]
    refine ⟨back, ?_, ?_⟩
    · rw [List.append_assoc]
      rfl
    · rw [List.append_cons front last back, List.drop_length_add_append]

theorem snprintf_suffix {r : List Byte} (hlen : (text line ++ r).length = MAXLINE) (i : Nat) :
    snprintf (below :: (text line ++ r)) (1 + (text line).length)
        (MAXLINE + 1 - (1 + (text line).length)) (suffix i) =
      below :: (text line ++ (cut line i ++ [0] ++ r.drop ((cut line i).length + 1))) := by
  have htext := text_length_lt line
  have hroom : MAXLINE + 1 - (1 + (text line).length) - 1 = MAXLINE - 1 - (text line).length := by
    omega
  have hcut : (cut line i).length ≤ MAXLINE - 1 - (text line).length := List.length_take_le _ _
  have hfit : 1 + (text line).length + (cut line i ++ [0]).length ≤
      (below :: (text line ++ r)).length := by
    rw [List.length_cons, hlen, List.length_append, List.length_singleton]
    omega
  have hdrop : 1 + (text line).length + (cut line i ++ [0]).length =
      (text line).length + ((cut line i).length + 1) + 1 := by
    rw [List.length_append, List.length_singleton]
    omega
  rw [snprintf, if_neg (by omega), hroom]
  change store _ _ (cut line i ++ [0]) = _
  rw [store_eq hfit, hdrop, List.drop_succ_cons, List.drop_length_add_append, Nat.add_comm 1,
    List.take_succ_cons, List.take_left, List.cons_append, List.cons_append, List.append_assoc,
    ← List.append_assoc]

theorem store_line (hcells : cells.length = MAXLINE) :
    store (below :: cells) 1 (line.1 ++ [0]) =
      below :: (line.1 ++ 0 :: cells.drop (line.1.length + 1)) := by
  have hline := line.2
  rw [store_eq, List.length_append, List.length_singleton, Nat.add_comm 1, List.drop_succ_cons,
    List.append_cons line.1 0 (cells.drop (line.1.length + 1))]
  · rfl
  · rw [List.length_append, List.length_singleton, List.length_cons]
    omega

theorem readLine_spec (hcells : cells.length = MAXLINE) (hne : cString line.1 ≠ []) :
    ∃ r, readLine (below :: cells) line =
        (below :: (text line ++ r), 1 + (text line).length) ∧
      r.drop 1 = (line.1 ++ 0 :: cells.drop (line.1.length + 1)).drop
        ((text line).length + 1) := by
  have hstr := cString_append_nul line.1 (cells.drop (line.1.length + 1))
  have hspec := chop_spec below (line.1 ++ 0 :: cells.drop (line.1.length + 1))
    (by rw [hstr]; exact hne)
  rw [hstr] at hspec
  rw [readLine, store_line below hcells]
  exact hspec

theorem written_length (block : Block) (line : Line) (i : Nat) :
    (written block line i).length = block.length := by
  induction i with
  | zero => exact (chop_length _).trans (store_length _ _ _)
  | succ i ih => exact (snprintf_length _ _ _ _).trans ih

theorem rest_length {r : List Byte} (hcells : cells.length = MAXLINE)
    (hwritten : written (below :: cells) line i = below :: (text line ++ r)) :
    (text line ++ r).length = MAXLINE := by
  have hlen := congrArg List.length hwritten
  rw [written_length, List.length_cons, List.length_cons, hcells] at hlen
  exact (Nat.succ_inj.mp hlen).symm

def taken (line : Line) : Nat := min 6 (MAXLINE - 1 - (text line).length) + 1

theorem written_spec (hcells : cells.length = MAXLINE) (hne : cString line.1 ≠ [])
    (hi : i ≤ SRV_MAX_SCTP_STRM) :
    ∃ r, written (below :: cells) line i = below :: (text line ++ r) ∧
      r.drop (taken line) = (line.1 ++ 0 :: cells.drop (line.1.length + 1)).drop
        ((text line).length + taken line) := by
  obtain ⟨r₀, hread, hdrop⟩ := readLine_spec below hcells hne
  induction i with
  | zero =>
      refine ⟨r₀, congrArg Prod.fst hread, ?_⟩
      have hmore := congrArg (List.drop (taken line - 1)) hdrop
      rw [List.drop_drop, List.drop_drop] at hmore
      have hpos : 1 + (taken line - 1) = taken line := by
        rw [taken]
        omega
      rw [hpos, Nat.add_assoc, hpos] at hmore
      exact hmore
  | succ i ih =>
      obtain ⟨r, hwritten, hrest⟩ := ih (by omega)
      have hlen := rest_length below hcells hwritten
      have htaken : (cut line i ++ [0]).length = taken line := by
        rw [List.length_append, cut_length line hi]
        rfl
      refine ⟨cut line i ++ [0] ++ r.drop ((cut line i).length + 1), ?_, ?_⟩
      · rw [written, hread]
        dsimp only
        rw [hwritten, snprintf_suffix below hlen]
      · rw [← htaken, List.drop_left, htaken, ← hrest, ← htaken, List.length_append,
          List.length_singleton]

/-- The block that message `i` is taken from: behind what the line and its texts reach, it
is as it was. -/
theorem written_eq (hcells : cells.length = MAXLINE) (hne : cString line.1 ≠ [])
    (hi : i < SRV_MAX_SCTP_STRM) :
    written (below :: cells) line (i + 1) = below :: (front line i ++ cells.drop (reach line)) := by
  obtain ⟨r, hwritten, hrest⟩ := written_spec below hcells hne hi.le
  obtain ⟨r₀, hread, -⟩ := readLine_spec below hcells hne
  have hlen := rest_length below hcells hwritten
  have htaken : (cut line i).length + 1 = taken line := by
    rw [cut_length line hi]
    rfl
  have hreach : line.1.length + 1 + ((text line).length + taken line - (line.1.length + 1)) =
      reach line := by
    rw [reach, taken]
    omega
  rw [written, hread]
  dsimp only
  rw [hwritten, snprintf_suffix below hlen, htaken, hrest, front, Nat.add_assoc, htaken,
    List.append_cons line.1 0 (cells.drop (line.1.length + 1)), List.drop_append,
    List.length_append, List.length_singleton, List.drop_drop, hreach]
  simp only [List.append_assoc]

end Cells

section Messages

variable (below : Byte) (hist : List Line) (line : Line) {i : Nat}

theorem message_length (i : Nat) : (message below hist line i).length = MAXLINE := by
  rw [message, List.length_drop, written_length, (afterLines_ok below hist).length_eq]
  rfl

variable {line}

theorem message_eq (hne : cString line.1 ≠ []) (hi : i < SRV_MAX_SCTP_STRM) :
    message below hist line i =
      front line i ++ (afterLines below hist).drop (reach line + 1) := by
  obtain ⟨b, cells, hblock, hcells⟩ := (afterLines_ok below hist).exists_cons
  rw [message, hblock, written_eq b hcells hne hi]
  rfl

theorem cString_message (hne : cString line.1 ≠ []) (hi : i < SRV_MAX_SCTP_STRM) :
    cString (message below hist line i) = (text line ++ suffix i).take (MAXLINE - 1) := by
  have htext := text_length_lt line
  have hcut : (text line ++ suffix i).take (MAXLINE - 1) = text line ++ cut line i := by
    rw [List.take_append, List.take_of_length_le (by omega), cut]
  have hzero : (0 : Byte) ∉ text line ++ cut line i := by
    rw [List.mem_append, not_or]
    exact ⟨fun hmem => zero_not_mem_cString line.1 ((text_prefix_cString line).subset hmem),
      fun hmem => zero_not_mem_suffix i (List.mem_of_mem_take hmem)⟩
  rw [message_eq below hist hne hi, front, List.append_assoc, List.append_assoc _ [0],
    List.singleton_append, cString_append_nul, cString_eq_self hzero, hcut]

def fullLine : Line := ⟨List.replicate (MAXLINE - 1) 97, by
  rw [List.length_replicate]
  decide⟩

theorem fullLine_text : text fullLine = List.replicate (MAXLINE - 1) 97 := by
  have hstr : cString fullLine.1 = List.replicate (MAXLINE - 1) 97 := by
    apply cString_eq_self
    intro hmem
    exact absurd (List.eq_of_mem_replicate hmem) (by decide)
  rw [text, hstr, withoutNewline, List.getLast?_replicate]
  exact if_neg (by decide)

theorem afterLines_fullLine {k : Nat} (hk : k < MAXLINE - 1) :
    (afterLines below [fullLine])[k + 1]? = some 97 := by
  have hne : cString fullLine.1 ≠ [] := by
    intro hnil
    have htext := (text_prefix_cString fullLine).length_le
    rw [fullLine_text, hnil, List.length_replicate] at htext
    exact absurd htext (by decide)
  rw [afterLines, List.foldl_cons, List.foldl_nil, cleared, show SRV_MAX_SCTP_STRM = 9 + 1 from rfl,
    written_eq below List.length_replicate hne (by decide), List.getElem?_cons_succ, front,
    fullLine_text, List.append_assoc, List.append_assoc, List.append_assoc,
    List.getElem?_append_left (by rw [List.length_replicate]; exact hk),
    List.getElem?_replicate_of_lt hk]

theorem message_alike_iff (hne : cString line.1 ≠ []) (hi : i < SRV_MAX_SCTP_STRM) :
    (∀ hist', message below hist' line i = message below hist line i) ↔
      MAXLINE - 1 ≤ reach line := by
  simp only [message_eq below _ hne hi, List.append_cancel_left_eq]
  constructor
  · intro halike
    by_contra hlt
    have hdrop := (halike [fullLine]).trans (halike []).symm
    have hcell := congrArg (fun l => l[MAXLINE - 2 - reach line]?) hdrop
    have hindex : reach line + 1 + (MAXLINE - 2 - reach line) = MAXLINE - 2 + 1 := by omega
    rw [List.getElem?_drop, List.getElem?_drop, hindex,
      afterLines_fullLine below (by decide)] at hcell
    change some 97 = (below :: List.replicate MAXLINE 0)[MAXLINE - 2 + 1]? at hcell
    rw [List.getElem?_cons_succ, List.getElem?_replicate_of_lt (by decide)] at hcell
    exact absurd hcell (by decide)
  · intro hreach hist'
    have hsplit : reach line + 1 = MAXLINE + (reach line + 1 - MAXLINE) := by omega
    rw [hsplit, ← List.drop_drop, ← List.drop_drop, (afterLines_ok below hist').drop_eq,
      (afterLines_ok below hist).drop_eq]

theorem reach_iff :
    MAXLINE - 1 ≤ reach line ↔
      MAXLINE - 2 ≤ line.1.length ∨ MAXLINE - 2 ≤ (text line).length + 6 := by
  have hmax : MAXLINE = 1024 := rfl
  rw [reach]
  omega

theorem touched_inside_iff (line : Line) :
    Inside MAXLINE (touched (afterLines below hist) line) ↔ cString line.1 ≠ [] := by
  obtain ⟨b, cells, hblock, hcells⟩ := (afterLines_ok below hist).exists_cons
  have hline := line.2
  have hstr := (cString_prefix_self line.1).length_le
  rw [hblock, touched, store_line b hcells, List.drop_one, List.tail_cons, cString_append_nul]
  rw [inside_append, inside_cons, inside_cons, inside_cons, Span.front_inside,
    Span.front_inside, Span.cell_inside]
  constructor
  · rintro ⟨⟨_, _, ⟨hlow, _⟩, _⟩, _⟩ hnil
    rw [hnil] at hlow
    exact absurd hlow (by decide)
  · intro hne
    have hpos := List.length_pos_iff.mpr hne
    obtain ⟨r, hread, _⟩ := readLine_spec b hcells hne
    refine ⟨⟨by omega, by omega, ⟨by omega, by omega⟩, inside_nil⟩, fun s hs => ?_⟩
    obtain ⟨i, _, hmem⟩ := List.mem_flatMap.mp hs
    have htext := text_length_lt line
    rw [hread] at hmem
    rcases List.mem_pair.mp hmem with rfl | rfl
    · refine .inr ⟨?_, ?_⟩
      · dsimp only
        omega
      · dsimp only
        omega
    · exact Span.front_inside.mpr (Nat.le_refl _)

end Messages

theorem mem_withoutNewline {s : List Byte} {b : Byte} (hb : b ≠ newline) (hmem : b ∈ s) :
    b ∈ withoutNewline s := by
  rw [withoutNewline]
  split_ifs with hlast
  · obtain ⟨front, rfl⟩ := List.getLast?_eq_some_iff.mp hlast
    rw [List.dropLast_concat]
    exact (List.mem_append.mp hmem).resolve_right fun h => hb (List.mem_singleton.mp h)
  · exact hmem

theorem withoutNewline_length_le (s : List Byte) :
    (withoutNewline s).length ≤ s.length ∧ s.length ≤ (withoutNewline s).length + 1 := by
  rw [withoutNewline]
  split_ifs
  · rw [List.length_dropLast]
    omega
  · omega

theorem zero_not_mem_of_exact {below : Byte} {hist : List Line} {line : Line}
    (hexact : cString (message below hist line 0) =
      (withoutNewline line.1 ++ suffix 0).take (MAXLINE - 1)) : (0 : Byte) ∉ line.1 := by
  intro hmem
  have hline := line.2
  have hle := (withoutNewline_length_le line.1).1
  apply zero_not_mem_cString (message below hist line 0)
  rw [hexact, List.take_append, List.take_of_length_le (by omega)]
  exact List.mem_append_left _ (mem_withoutNewline (by decide) hmem)

/-- Whatever the line is and whatever lines were before it: no message is the line with its
suffix, since it has all bytes of `sendline`. If only the strings in them count, the messages
are what they should be exactly for lines without a NUL that fill `sendline` together with
the suffix. -/
theorem echoall_messages (below : Byte) (hist : List Line) (line : Line) :
    ¬ Contract id below hist line ∧
      (Contract cString below hist line ↔
        0 ∉ line.1 ∧ MAXLINE - 8 ≤ (withoutNewline line.1).length) := by
  have hbounds := withoutNewline_length_le line.1
  constructor
  · intro hcontract
    have hlen := congrArg List.length (hcontract.exact 0 (by decide))
    have htake := List.length_take_le (MAXLINE - 1) (withoutNewline line.1 ++ suffix 0)
    rw [← hlen, id, message_length] at htake
    exact absurd htake (by decide)
  · constructor
    · intro hcontract
      have hne := (touched_inside_iff below hist line).mp hcontract.inside
      have hzero := zero_not_mem_of_exact (hcontract.exact 0 (by decide))
      have hreach := reach_iff.mp ((message_alike_iff below hist hne (by decide)).mp
        fun hist' => hcontract.alike hist' 0 (by decide))
      rw [text, cString_eq_self hzero] at hreach
      have hmax : MAXLINE = 1024 := rfl
      exact ⟨hzero, by omega⟩
    · rintro ⟨hzero, hlong⟩
      have hstr := cString_eq_self hzero
      have hne : cString line.1 ≠ [] := by
        rw [hstr]
        rintro hnil
        rw [hnil] at hlong
        exact absurd hlong (by decide)
      have hreach : MAXLINE - 1 ≤ reach line := by
        apply reach_iff.mpr
        have hmax : MAXLINE = 1024 := rfl
        rw [text, hstr]
        omega
      refine ⟨fun i hi => ?_, (touched_inside_iff below hist line).mpr hne,
        fun hist' i hi => (message_alike_iff below hist hne hi).mpr hreach hist'⟩
      rw [cString_message below hist hne hi, text, hstr]

theorem earlier_line_reaches_peer :
    ¬ ∀ (below : Byte) (hist : List Line) (line : Line),
      Contract id below hist line ∨ Contract cString below hist line := by
  intro hall
  have halike : ∀ hist', ∀ i < SRV_MAX_SCTP_STRM,
      message 0 hist' ⟨[98, 10], by decide⟩ i = message 0 [] ⟨[98, 10], by decide⟩ i := by
    rcases hall 0 [] ⟨[98, 10], by decide⟩ with hcontract | hcontract
    · exact hcontract.alike
    · exact hcontract.alike
  have hreach := (message_alike_iff 0 [] (by decide) (by decide)).mp
    fun hist' => halike hist' 0 (by decide)
  exact absurd hreach (by decide)

section Runs

variable {stream_increment : Int} {p : Peer} {file : List Byte} {s t : State}

def Along (file : List Byte) (below : Byte) (s : State) : Prop :=
  ∃ hist : List Line, match s.pc with
    | .send i =>
        i < SRV_MAX_SCTP_STRM ∧ ∃ line : Line,
          file = hist.flatMap Subtype.val ++ line.1 ++ s.input ∧
          s.sendline = written (afterLines below hist) line i ∧
          s.off = (readLine (afterLines below hist) line).2
    | _ => file = hist.flatMap Subtype.val ++ s.input ∧ s.sendline = afterLines below hist

theorem Along.fgets {below : Byte} (h : Along file below s) (hpc : s.pc = .fgets) :
    Along file below s.fgets := by
  obtain ⟨hist, h⟩ := h
  rw [hpc] at h
  obtain ⟨hfile, hsendline⟩ := h
  have hlen := nextPiece_length_le newline (MAXLINE - 1) s.input
  refine ⟨hist, by decide, ⟨(nextPiece newline (MAXLINE - 1) s.input).1, ?_⟩, ?_, ?_, ?_⟩
  · exact Nat.lt_of_le_of_lt hlen (by decide)
  · rw [hfile, List.append_assoc]
    congr 1
    exact (nextPiece_append newline (MAXLINE - 1) s.input).symm
  · rw [← hsendline]
    rfl
  · rw [← hsendline]
    rfl

theorem Along.send {below : Byte} {i : Nat} (h : Along file below s) (hpc : s.pc = .send i) :
    Along file below (s.send i) := by
  obtain ⟨hist, h⟩ := h
  rw [hpc] at h
  obtain ⟨hi, line, hfile, hsendline, hoff⟩ := h
  have hnumber : s.number i = written (afterLines below hist) line (i + 1) := by
    rw [State.number, hsendline, hoff]
    rfl
  rcases Nat.lt_or_ge (i + 1) SRV_MAX_SCTP_STRM with hlt | hge
  · have hpc' : (s.send i).pc = .send (i + 1) := if_pos hlt
    refine ⟨hist, ?_⟩
    rw [hpc']
    exact ⟨hlt, line, hfile, hnumber, hoff⟩
  · have hpc' : (s.send i).pc = .recv 0 := if_neg (Nat.not_lt.mpr hge)
    have hlast : i + 1 = SRV_MAX_SCTP_STRM := by omega
    refine ⟨hist ++ [line], ?_⟩
    rw [hpc']
    refine ⟨?_, ?_⟩
    · rw [List.flatMap_append, List.flatMap_singleton]
      exact hfile
    · rw [afterLines_snoc, ← hlast]
      exact hnumber

/-- Only `fgets` and the suffixes change `sendline`. -/
theorem reachable_along (h : (system stream_increment p file).Reachable s) :
    ∃ below, Along file below s := by
  refine h.invariant (P := fun s => ∃ below, Along file below s) ?_ ?_
  · intro s hs
    obtain ⟨below, hbelow⟩ := hs.sendline
    refine ⟨below, [], ?_⟩
    rw [hs.pc]
    exact ⟨hs.input.symm, hbelow⟩
  · rintro s l t _ ⟨below, halong⟩ hst
    refine ⟨below, ?_⟩
    cases step_move hst with
    | eof hpc hinput =>
        obtain ⟨hist, h⟩ := halong
        rw [hpc] at h
        exact ⟨hist, h⟩
    | fgets hpc hinput => exact halong.fgets hpc
    | send hpc => exact halong.send hpc
    | serve hdeliver hpass => exact halong
    | @recv k i m rest hpc hdeliver =>
        obtain ⟨hist, h⟩ := halong
        rw [hpc] at h
        refine ⟨hist, ?_⟩
        rw [State.recv]
        split_ifs
        · exact h
        · exact h

theorem reachable_message (h : (system stream_increment p file).Reachable s) {i : Nat}
    (hpc : s.pc = .send i) :
    ∃ below hist line, file = hist.flatMap Subtype.val ++ line.1 ++ s.input ∧
      (s.message i).data = message below hist line i := by
  obtain ⟨below, hist, h⟩ := reachable_along h
  rw [hpc] at h
  obtain ⟨_, line, hfile, hsendline, hoff⟩ := h
  refine ⟨below, hist, line, hfile, ?_⟩
  change (s.number i).drop 1 = _
  rw [State.number, hsendline, hoff]
  rfl

end Runs

end MyUnp.EchoAllMessages
