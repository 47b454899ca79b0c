import BatchCompile.Emission
import BatchCompile.Proofs.Comments
import BatchCompile.Proofs.Text.Bytes
import Mathlib.Algebra.Group.Nat.Defs
import Mathlib.Data.List.Induction

/-!
# The search for comments in bytes

The search can be made in bytes: each round goes on from an offset into the source, looks for the
next `//` and the next `/*`, compares where they stand and jumps behind the comment that is first
(`round?`). No round cuts a character in two, the rounds come to an end, and what they find is what
`unclosed?` finds (`scans_iff`).
-/

namespace BatchCompile

namespace Comments

/-! ## Rounds -/

/-- What a round comes to: the offset from which the next one goes on, or the end. -/
inductive Round where
  | goOn (offset : Nat)
  | stop (found : Option Position)

/-- A position whose numbers are kept in words of 32 bits. -/
def Position.wrapped (p : Position) : Position :=
  ⟨p.line % 2 ^ 32, p.character % 2 ^ 32⟩

def positionAt? (t : Text) (offset : Nat) : Option Position := do
  let before ← Text.upToByte? offset t
  let lineStart := (Text.cutLast? '\n' before).elim 0 fun pieces => Text.byteLength pieces.1 + 1
  let column ← Text.fromByte? lineStart before
  some (Position.wrapped ⟨before.count '\n', column.length⟩)

/-- The round over a line comment that starts at `line` in what is left from `offset` on. -/
def lineRound? (offset : Nat) (rest : Text) (line : Nat) : Option Round := do
  let comment ← Text.fromByte? line rest
  let length := (Text.byteOf? ['\n'] comment).getD (Text.byteLength rest - line)
  some (.goOn (offset + (line + length)))

/-- The round over a block comment that starts at `start`. -/
def blockRound? (t : Text) (start : Nat) : Option Round := do
  let inside ← Text.fromByte? (start + 2) t
  match Text.byteOf? ['*', '/'] inside with
  | some closer => some (.goOn (start + 2 + closer + 2))
  | none => (positionAt? t start).map fun p => .stop (some p)

/-- One round from an offset on; nothing if it cuts a character in two. -/
def round? (t : Text) (offset : Nat) : Option Round :=
  if offset < Text.byteLength t then do
    let rest ← Text.fromByte? offset t
    match Text.byteOf? ['/', '/'] rest, Text.byteOf? ['/', '*'] rest with
    | none, none => some (.stop none)
    | some line, none => lineRound? offset rest line
    | none, some block => blockRound? t (offset + block)
    | some line, some block =>
      if line < block then lineRound? offset rest line else blockRound? t (offset + block)
  else some (.stop none)

/-- The rounds from an offset on come to an end, and this is what they find. -/
inductive Scans (t : Text) : Nat → Option Position → Prop
  | stop {offset : Nat} {found : Option Position} (h : round? t offset = some (.stop found)) :
    Scans t offset found
  | goOn {offset next : Nat} {found : Option Position} (h : round? t offset = some (.goOn next))
    (later : Scans t next found) : Scans t offset found

theorem Scans.unique {t : Text} {offset : Nat} {found found' : Option Position}
    (h : Scans t offset found) (h' : Scans t offset found') : found = found' := by
  induction h with
  | stop h =>
    cases h' with
    | stop h' => cases h.symm.trans h'; rfl
    | goOn h' _ => cases h.symm.trans h'
  | goOn h _ ih =>
    cases h' with
    | stop h' => cases h.symm.trans h'
    | goOn h' later => cases h.symm.trans h'; exact ih later

/-! ## What stands where -/

section

variable {t comment : Text}

theorem opener_at_front {c d : Char} {rest : Text} (h : ['/', d] <+: c :: rest)
    (hd : d = '/' ∨ d = '*') : c = '/' ∧ (rest.head? = some '/' ∨ rest.head? = some '*') := by
  obtain ⟨after, hafter⟩ := h
  obtain ⟨rfl, rfl⟩ := List.cons.inj hafter
  exact ⟨rfl, hd.imp (fun e => by rw [e]; rfl) fun e => by rw [e]; rfl⟩

theorem byteOf?_of_opener?_eq_none (h : opener? t = none) {d : Char} (hd : d = '/' ∨ d = '*') :
    Text.byteOf? ['/', d] t = none := by
  fun_induction opener? t with
  | case1 => rfl
  | case2 => cases h
  | case3 c rest hc ih =>
    rw [Text.byteOf?_cons fun hp => hc (opener_at_front hp hd), ih h, Option.map_none]

theorem exists_front_of_opener? (h : opener? t = some comment) :
    ∃ front, t = front ++ comment ∧ ∀ d, d = '/' ∨ d = '*' → Text.byteOf? ['/', d] t =
      (Text.byteOf? ['/', d] comment).map (Text.byteLength front + ·) := by
  fun_induction opener? t with
  | case1 => cases h
  | case2 c rest hc =>
    obtain rfl := Option.some.inj h
    refine ⟨[], rfl, fun d hd => ?_⟩
    simp
  | case3 c rest hc ih =>
    obtain ⟨front, rfl, hfront⟩ := ih h
    refine ⟨c :: front, rfl, fun d hd => ?_⟩
    rw [Text.byteOf?_cons fun hp => hc (opener_at_front hp hd), hfront d hd, Option.map_map,
      Text.byteLength_cons]
    exact congrArg (Option.map · _) (funext fun n => (Nat.add_assoc _ _ _).symm)

/-- Of two kinds of comment the one that starts is found at once, and the other one later. -/
theorem byteOf?_opener {c d : Char} (hne : d ≠ c) (rest : Text) :
    Text.byteOf? ['/', c] ('/' :: c :: rest) = some 0 ∧
      ∀ n ∈ Text.byteOf? ['/', d] ('/' :: c :: rest), 0 < n := by
  have hprefix : ['/', c] <+: '/' :: c :: rest := ⟨rest, rfl⟩
  have hother : ¬['/', d] <+: '/' :: c :: rest := by
    rintro ⟨after, hafter⟩
    exact hne (List.cons.inj (List.cons.inj hafter).2).1
  refine ⟨Text.byteOf?_at_front (List.cons_ne_nil _ _) hprefix, fun n hn => ?_⟩
  rw [Text.byteOf?_cons hother] at hn
  obtain ⟨later, -, rfl⟩ := Option.map_eq_some_iff.1 hn
  exact Nat.add_pos_left (Char.utf8Size_pos _) later

theorem byteOf?_front {front rest : Text} {c d : Char} (hc : c = '/' ∨ c = '*')
    (hd : d = '/' ∨ d = '*') (hne : d ≠ c)
    (hfront : ∀ d, d = '/' ∨ d = '*' → Text.byteOf? ['/', d] (front ++ '/' :: c :: rest) =
      (Text.byteOf? ['/', d] ('/' :: c :: rest)).map (Text.byteLength front + ·)) :
    Text.byteOf? ['/', c] (front ++ '/' :: c :: rest) = some (Text.byteLength front) ∧
      ∀ n ∈ Text.byteOf? ['/', d] (front ++ '/' :: c :: rest), Text.byteLength front < n := by
  obtain ⟨hfirst, hlater⟩ := byteOf?_opener hne rest
  rw [hfront c hc, hfront d hd, hfirst]
  refine ⟨rfl, fun n hn => ?_⟩
  obtain ⟨later, hm, rfl⟩ := Option.map_eq_some_iff.1 hn
  exact Nat.lt_add_of_pos_right (hlater later hm)

theorem byteOf?_closer (t : Text) :
    match afterCloser? t with
    | none => Text.byteOf? ['*', '/'] t = none
    | some rest => ∃ inner, t = inner ++ '*' :: '/' :: rest ∧
        Text.byteOf? ['*', '/'] t = some (Text.byteLength inner) := by
  fun_induction afterCloser? t with
  | case1 => rfl
  | case2 c rest hc =>
    obtain ⟨rfl, hd⟩ := hc
    obtain ⟨after, rfl⟩ := List.head?_eq_some_iff.1 hd
    have hprefix : ['*', '/'] <+: '*' :: '/' :: after := ⟨after, rfl⟩
    exact ⟨[], rfl, Text.byteOf?_at_front (List.cons_ne_nil _ _) hprefix⟩
  | case3 c rest hc ih =>
    have hprefix : ¬['*', '/'] <+: c :: rest := by
      rintro ⟨after, hafter⟩
      obtain ⟨rfl, rfl⟩ := List.cons.inj hafter
      exact hc ⟨rfl, rfl⟩
    rw [Text.byteOf?_cons hprefix]
    split at ih
    · rw [ih, Option.map_none]
    · obtain ⟨inner, rfl, hinner⟩ := ih
      refine ⟨c :: inner, rfl, ?_⟩
      rw [hinner, Option.map_some, Text.byteLength_cons]

end

/-! ## What a round comes to -/

theorem exists_column (before : Text) : ∃ upTo column, before = upTo ++ column ∧ '\n' ∉ column ∧
    (upTo = [] ∨ upTo.getLast? = some '\n') ∧
    Position.behind before = ⟨before.count '\n', column.length⟩ := by
  induction before using List.reverseRecOn with
  | nil => exact ⟨[], [], rfl, List.not_mem_nil, .inl rfl, rfl⟩
  | append_singleton before c ih =>
    obtain ⟨upTo, column, hbefore, hcolumn, hupTo, hbehind⟩ := ih
    by_cases hc : c = '\n'
    · subst hc
      exact ⟨before ++ ['\n'], [], by simp, List.not_mem_nil, .inr (by simp),
        by simp [Position.behind]⟩
    · have hlast : (before.reverse.takeWhile (· != '\n')).length = column.length :=
        congrArg Position.character hbehind
      refine ⟨upTo, column ++ [c], by simp [hbefore], by simp [hcolumn, Ne.symm hc], hupTo, ?_⟩
      rw [Position.behind, List.reverse_append, List.reverse_singleton, List.singleton_append,
        List.takeWhile_cons_of_pos (by simpa using hc), List.length_cons, hlast, List.length_append,
        List.length_singleton]

theorem lineStart_fromByte? {upTo column : Text} (hcolumn : '\n' ∉ column)
    (hupTo : upTo = [] ∨ upTo.getLast? = some '\n') :
    Text.fromByte? ((Text.cutLast? '\n' (upTo ++ column)).elim 0
      fun pieces => Text.byteLength pieces.1 + 1) (upTo ++ column) = some column := by
  rcases hupTo with rfl | hupTo
  · rw [List.nil_append, Text.cutLast?_eq_none hcolumn]
    exact Text.fromByte?_append [] column
  · obtain ⟨lines, rfl⟩ := List.getLast?_eq_some_iff.1 hupTo
    have hstart : Text.byteLength lines + 1 = Text.byteLength (lines ++ ['\n']) :=
      (Text.byteLength_append lines ['\n']).symm
    have hcut : lines ++ ['\n'] ++ column = lines ++ '\n' :: column := by simp
    rw [hcut, Text.cutLast?_append lines hcolumn, ← hcut]
    show Text.fromByte? (Text.byteLength lines + 1) _ = _
    rw [hstart, Text.fromByte?_append]

theorem positionAt?_append (before rest : Text) :
    positionAt? (before ++ rest) (Text.byteLength before) =
      some (Position.behind before).wrapped := by
  obtain ⟨upTo, column, rfl, hcolumn, hupTo, hbehind⟩ := exists_column before
  rw [positionAt?, Text.upToByte?_append, Option.bind_eq_bind, Option.bind_some]
  simp only [lineStart_fromByte? hcolumn hupTo, Option.bind_some, hbehind]

/-- Positions in texts that are not too long are not wrapped. -/
theorem wrapped_behind {before : Text} (h : before.length < 2 ^ 32) :
    (Position.behind before).wrapped = Position.behind before := by
  obtain ⟨upTo, column, rfl, -, -, hbehind⟩ := exists_column before
  have hlines : (upTo ++ column).count '\n' < 2 ^ 32 := Nat.lt_of_le_of_lt List.count_le_length h
  have hcharacters : column.length < 2 ^ 32 := by
    rw [List.length_append] at h
    omega
  rw [hbehind, Position.wrapped, Nat.mod_eq_of_lt hlines, Nat.mod_eq_of_lt hcharacters]

theorem lineRound?_append (before front comment : Text) :
    lineRound? (Text.byteLength before) (front ++ comment) (Text.byteLength front) =
      some (.goOn (Text.byteLength (before ++ front ++ comment.takeWhile (· != '\n')))) := by
  have hrest : Text.byteLength (front ++ comment) - Text.byteLength front =
      Text.byteLength comment := by
    rw [Text.byteLength_append, Nat.add_sub_cancel_left]
  rw [lineRound?, Text.fromByte?_append, hrest, Option.bind_eq_bind, Option.bind_some]
  simp only [Text.byteOf?_getD, Text.byteLength_append, Nat.add_assoc]

section

variable (before : Text) {inside : Text}

theorem fromByte?_inside (inside : Text) :
    Text.fromByte? (Text.byteLength before + 2) (before ++ '/' :: '*' :: inside) = some inside := by
  have hlength : Text.byteLength before + 2 = Text.byteLength (before ++ ['/', '*']) :=
    (Text.byteLength_append before ['/', '*']).symm
  have hcut : before ++ '/' :: '*' :: inside = before ++ ['/', '*'] ++ inside := by simp
  rw [hlength, hcut, Text.fromByte?_append]

theorem blockRound?_of_none (h : afterCloser? inside = none) :
    blockRound? (before ++ '/' :: '*' :: inside) (Text.byteLength before) =
      some (.stop (some (Position.behind before).wrapped)) := by
  have hcloser := byteOf?_closer inside
  rw [h] at hcloser
  rw [blockRound?, fromByte?_inside, Option.bind_eq_bind, Option.bind_some, hcloser]
  simp only [positionAt?_append, Option.map_some]

theorem blockRound?_of_some {rest : Text} (h : afterCloser? inside = some rest) :
    ∃ inner, inside = inner ++ '*' :: '/' :: rest ∧
      blockRound? (before ++ '/' :: '*' :: inside) (Text.byteLength before) =
        some (.goOn (Text.byteLength (before ++ '/' :: '*' :: inner ++ ['*', '/']))) := by
  have hcloser := byteOf?_closer inside
  rw [h] at hcloser
  obtain ⟨inner, hinner, hfound⟩ := hcloser
  refine ⟨inner, hinner, ?_⟩
  have hlength : Text.byteLength (before ++ '/' :: '*' :: inner ++ ['*', '/']) =
      Text.byteLength before + 2 + Text.byteLength inner + 2 := by
    simp only [Text.byteLength_append, Text.byteLength_cons, Text.byteLength_nil]
    have h₁ : '/'.utf8Size = 1 := rfl
    have h₂ : '*'.utf8Size = 1 := rfl
    omega
  rw [blockRound?, fromByte?_inside, Option.bind_eq_bind, Option.bind_some, hfound, hlength]

end

section

variable (before : Text) {rest : Text}

theorem offset_lt (h : rest ≠ []) :
    Text.byteLength before < Text.byteLength (before ++ rest) := by
  obtain ⟨c, rest, rfl⟩ := List.exists_cons_of_ne_nil h
  have := Char.utf8Size_pos c
  rw [Text.byteLength_append, Text.byteLength_cons]
  omega

theorem round?_of_none (h : opener? rest = none) :
    round? (before ++ rest) (Text.byteLength before) = some (.stop none) := by
  unfold round?
  split
  · rw [Text.fromByte?_append, Option.bind_eq_bind, Option.bind_some]
    simp only [byteOf?_of_opener?_eq_none h (.inl rfl), byteOf?_of_opener?_eq_none h (.inr rfl)]
  · rfl

theorem exists_round?_line {line : Text} (h : opener? rest = some ('/' :: '/' :: line)) :
    ∃ front, rest = front ++ '/' :: '/' :: line ∧
      round? (before ++ rest) (Text.byteLength before) = some (.goOn (Text.byteLength
        (before ++ front ++ ('/' :: '/' :: line).takeWhile (· != '\n')))) := by
  obtain ⟨front, rfl, hfront⟩ := exists_front_of_opener? h
  obtain ⟨hline, hblock⟩ := byteOf?_front (d := '*') (.inl rfl) (.inr rfl) (by decide) hfront
  refine ⟨front, rfl, ?_⟩
  rw [round?, if_pos (offset_lt before (by simp)), Text.fromByte?_append, Option.bind_eq_bind,
    Option.bind_some, hline, ← lineRound?_append]
  cases hfound : Text.byteOf? ['/', '*'] (front ++ '/' :: '/' :: line) with
  | none => rfl
  | some block => exact if_pos (hblock block hfound)

theorem exists_round?_block {inside : Text} (h : opener? rest = some ('/' :: '*' :: inside)) :
    ∃ front, rest = front ++ '/' :: '*' :: inside ∧
      round? (before ++ rest) (Text.byteLength before) =
        blockRound? (before ++ front ++ '/' :: '*' :: inside) (Text.byteLength (before ++ front)) := by
  obtain ⟨front, rfl, hfront⟩ := exists_front_of_opener? h
  obtain ⟨hblock, hline⟩ := byteOf?_front (d := '/') (.inr rfl) (.inl rfl) (by decide) hfront
  refine ⟨front, rfl, ?_⟩
  rw [round?, if_pos (offset_lt before (by simp)), Text.fromByte?_append, Option.bind_eq_bind,
    Option.bind_some, hblock, List.append_assoc, Text.byteLength_append before front]
  cases hfound : Text.byteOf? ['/', '/'] (front ++ '/' :: '*' :: inside) with
  | none => rfl
  | some line => exact if_neg (Nat.lt_asymm (hline line hfound))

end

/-! ## The whole scan -/

/-- From behind any front of a text the scan finds what the search finds in the rest. -/
theorem scans_of_eq_append {t before rest : Text} (ht : t = before ++ rest) :
    Scans t (Text.byteLength before) ((unclosedFrom? rest).map fun comment =>
      (Position.behind (t.take (t.length - comment.length))).wrapped) := by
  fun_induction unclosedFrom? rest generalizing before with
  | case1 rest hopener => exact .stop (ht ▸ round?_of_none before hopener)
  | case2 rest comment hopener hslash ih =>
    obtain ⟨line, rfl | rfl⟩ := opener?_eq_cons hopener
    · obtain ⟨front, rfl, hround⟩ := exists_round?_line before hopener
      have hline : ('/' :: '/' :: line).takeWhile (· != '\n') ++ toLineEnd ('/' :: line) =
          '/' :: '/' :: line := List.takeWhile_append_dropWhile
      refine .goOn (ht ▸ hround) (ih ?_)
      rw [List.tail_cons, List.append_assoc (before ++ front), hline, List.append_assoc, ht]
    · cases hslash
  | case3 rest comment hopener hslash hclose =>
    obtain ⟨inside, rfl | rfl⟩ := opener?_eq_cons hopener
    · exact absurd rfl hslash
    · obtain ⟨front, rfl, hround⟩ := exists_round?_block before hopener
      rw [← List.append_assoc] at ht
      have htake : t.take (t.length - ('/' :: '*' :: inside).length) = before ++ front := by
        rw [ht, List.length_append, Nat.add_sub_cancel, List.take_left]
      rw [Option.map_some, htake]
      rw [← List.append_assoc, ← ht] at hround
      exact .stop (hround.trans (ht ▸ blockRound?_of_none _ hclose))
  | case4 rest comment hopener hslash rest' hclose ih =>
    obtain ⟨inside, rfl | rfl⟩ := opener?_eq_cons hopener
    · exact absurd rfl hslash
    · obtain ⟨front, rfl, hround⟩ := exists_round?_block before hopener
      have hinside : afterCloser? inside = some rest' := hclose
      obtain ⟨inner, rfl, hgoOn⟩ := blockRound?_of_some (before ++ front) hinside
      exact .goOn (ht ▸ hround.trans hgoOn) (ih (by simp [ht]))

theorem scans_iff {t : Text} {found : Option Position} :
    Scans t 0 found ↔ found = (unclosed? t).map Position.wrapped := by
  have hscan : Scans t 0 ((unclosed? t).map Position.wrapped) := by
    rw [unclosed?, Option.map_map]
    exact scans_of_eq_append (List.nil_append t).symm
  refine ⟨fun hfound => hfound.unique hscan, ?_⟩
  rintro rfl
  exact hscan

theorem wrapped_unclosed? {t : Text} (h : t.length < 2 ^ 32) :
    (unclosed? t).map Position.wrapped = unclosed? t := by
  rw [unclosed?, Option.map_map]
  refine congrArg (Option.map · _) (funext fun rest => wrapped_behind ?_)
  exact Nat.lt_of_le_of_lt (List.length_take_le' _ t) h

end Comments

/-- The comments of a source are at fault exactly if its reader, who goes from character to
character, is left in a block comment, and the fault is placed where that one starts: after so many
line feeds, and so many characters into its line. The search in bytes always ends, never cuts a
character in two and finds the same, as long as the numbers of lines and characters fit into words. -/
theorem commentFault?_read (u : SourceUnit) :
    (∀ found, Comments.Scans u.text 0 found ↔
        found = (Comments.unclosed? u.text).map Comments.Position.wrapped) ∧
      (u.text.length < 2 ^ 32 →
        (Comments.unclosed? u.text).map Comments.Position.wrapped = Comments.unclosed? u.text) ∧
      (u.commentFault? = none ↔ ¬Comments.Open u.text) ∧
      ∀ left, Comments.State.run .code u.text = .block left →
        ∃ upTo column inside, u.text = upTo ++ column ++ '/' :: '*' :: inside ∧
          left = inside.length + 2 ∧ (upTo = [] ∨ upTo.getLast? = some '\n') ∧ '\n' ∉ column ∧
          u.commentFault? = some ((Diagnostic.ofMessage (some u.path) .commentNotClosed []).placed
            ((upTo ++ column).count '\n') column.length) := by
  refine ⟨fun found => Comments.scans_iff, Comments.wrapped_unclosed?, ?_, fun left hleft => ?_⟩
  · rw [SourceUnit.commentFault?, Option.map_eq_none_iff, Comments.open_iff,
      Option.eq_none_iff_forall_ne_some, not_exists]
  · obtain ⟨comment, hcomment, rfl⟩ := Comments.run_code_eq_block_iff.1 hleft
    obtain ⟨before, hbefore⟩ := Comments.suffix_of_unclosedFrom? hcomment
    obtain ⟨inside, rfl⟩ := Comments.unclosedFrom?_eq_cons hcomment
    obtain ⟨upTo, column, rfl, hcolumn, hupTo, hbehind⟩ := Comments.exists_column before
    refine ⟨upTo, column, inside, hbefore.symm, rfl, hupTo, hcolumn, ?_⟩
    have htake : u.text.take (u.text.length - ('/' :: '*' :: inside).length) = upTo ++ column := by
      rw [← hbefore, List.length_append, Nat.add_sub_cancel, List.take_left]
    rw [SourceUnit.commentFault?, Comments.unclosed?, hcomment, Option.map_some, Option.map_some,
      htake, hbehind]

/-- Markers of one kind inside the other do not count, and `/*/` only opens; the place is counted in
characters. -/
theorem commentFault?_read_overlaps :
    let u : SourceUnit := ⟨"/work/a.ts".toList, "//*\n*//*é\nü/*/ /".toList, .none, []⟩
    u.text.length < 2 ^ 32 ∧ Comments.State.run .code u.text = .block 5 ∧
      Comments.Scans u.text 0 (some ⟨2, 1⟩) ∧ u.commentFault? ≠ none ∧
      ∃ upTo column inside, u.text = upTo ++ column ++ '/' :: '*' :: inside ∧
        5 = inside.length + 2 ∧ (upTo = [] ∨ upTo.getLast? = some '\n') ∧ '\n' ∉ column ∧
        u.commentFault? = some ((Diagnostic.ofMessage (some u.path) .commentNotClosed []).placed
          ((upTo ++ column).count '\n') column.length) := by
  intro u
  have hlength : u.text.length < 2 ^ 32 := by decide
  have hblock : Comments.State.run .code u.text = .block 5 := by decide
  have hfound : some ⟨2, 1⟩ = Comments.unclosed? u.text := by decide +kernel
  obtain ⟨hscans, hwrapped, hnone, hread⟩ := commentFault?_read u
  exact ⟨hlength, hblock, (hscans _).2 (hfound.trans (hwrapped hlength).symm),
    fun h => hnone.1 h ⟨5, hblock⟩, hread 5 hblock⟩

end BatchCompile
