import BatchCompile.Closure
import BatchCompile.Proofs.Text.Bytes
import BatchCompile.Proofs.Text.Cuts

/-!
# The search for attributes in bytes

The value of an attribute can be sought in bytes: the name is looked for in the line in lower case,
from an offset on, and the offsets found there are used on the line as it is. Where the name stands
behind no blank, or no `=` follows it, the next look goes on behind it (`look?`). That cuts no
character in two, as no character changes its length in lower case; it comes to an end, as a name is
not empty; and it finds what `attribute?` finds, as a name holds no blank (`reads_iff`).
-/

namespace BatchCompile

/-! ## Letters in lower case -/

namespace Text

theorem toNat_toLower (c : Char) : c.toLower.toNat = c.toNat ∨
    65 ≤ c.toNat ∧ c.toNat ≤ 90 ∧ c.toLower.toNat = c.toNat + 32 := by
  unfold Char.toLower
  split
  · rename_i h
    have hlast : c.val.toNat ≤ 90 := h.2
    refine .inr ⟨h.1, hlast, ?_⟩
    show (c.val + 32).toNat = c.val.toNat + 32
    rw [UInt32.toNat_add]
    refine Nat.mod_eq_of_lt ?_
    show c.val.toNat + 32 < 2 ^ 32
    omega
  · exact .inl rfl

theorem utf8Size_toLower (c : Char) : c.toLower.utf8Size = c.utf8Size := by
  rcases toNat_toLower c with h | ⟨h₁, h₂, h⟩
  · rw [Char.ext (UInt32.toNat_inj.1 h)]
  · have hsize : ∀ d : Char, d.toNat ≤ 127 → d.utf8Size = 1 := fun _ hd =>
      Char.utf8Size_eq_one_iff.2 hd
    rw [hsize c (by omega), hsize _ (by omega)]

theorem isBlank_toLower (c : Char) : isBlank c.toLower = isBlank c := by
  rcases toNat_toLower c with h | ⟨h₁, h₂, h⟩
  · rw [isBlank, Ranges.covers, h]
    rfl
  · simp [isBlank, Ranges.covers, blankRanges, h]
    grind

@[simp] theorem asciiLower_append (a b : Text) :
    asciiLower (a ++ b) = asciiLower a ++ asciiLower b :=
  List.map_append

theorem byteLength_asciiLower (t : Text) : byteLength (asciiLower t) = byteLength t := by
  induction t with
  | nil => rfl
  | cons c t ih =>
    rw [asciiLower, List.map_cons, byteLength_cons, byteLength_cons, utf8Size_toLower]
    exact congrArg _ ih

theorem exists_of_asciiLower_eq_append {t a b : Text} (h : asciiLower t = a ++ b) :
    ∃ a' b', t = a' ++ b' ∧ asciiLower a' = a ∧ asciiLower b' = b := by
  obtain ⟨a', b', rfl, ha, hb⟩ := List.map_eq_append_iff.1 h
  exact ⟨a', b', rfl, ha, hb⟩

end Text

namespace Directives

open Text (asciiLower byteLength isBlank)

/-! ## Looks -/

/-- What one look for a name comes to: the offset from which the next one goes on, or the end. -/
inductive Look where
  | goOn (offset : Nat)
  | stop (found : Option Text)

/-- What a quote at the front encloses, cut out in bytes; nothing if that cuts a character in two. -/
def encloses? (t : Text) : Option (Option Text) :=
  match t.head? with
  | none => some none
  | some quote =>
    if quote = '"' ∨ quote = '\'' then do
      let rest ← Text.fromByte? 1 t
      match Text.byteOf? [quote] rest with
      | none => some none
      | some length => (Text.upToByte? length rest).map some
    else some none

/-- One look for a name from an offset on; nothing if it cuts a character in two. -/
def look? (name line : Text) (offset : Nat) : Option Look := do
  let rest ← Text.fromByte? offset (asciiLower line)
  match Text.byteOf? name rest with
  | none => some (.stop none)
  | some byte =>
    let before ← Text.upToByte? (offset + byte) (asciiLower line)
    let next := offset + byte + byteLength name
    if before.getLast?.any isBlank then
      let after ← Text.fromByte? next line
      match afterEquals? after with
      | none => some (.goOn next)
      | some value => (encloses? value).map .stop
    else some (.goOn next)

/-- The looks from an offset on come to an end, and this is what they find. -/
inductive Looks (name line : Text) : Nat → Option Text → Prop
  | stop {offset : Nat} {found : Option Text} (h : look? name line offset = some (.stop found)) :
    Looks name line offset found
  | goOn {offset next : Nat} {found : Option Text} (h : look? name line offset = some (.goOn next))
    (later : Looks name line next found) : Looks name line offset found

/-- The value of an attribute as it is read in bytes. It is sought only in a line that holds
`<reference`. -/
def Reads (name line : Text) (found : Option Text) : Prop :=
  ("<reference".toList <:+: asciiLower line → Looks name line 0 found) ∧
    (¬"<reference".toList <:+: asciiLower line → found = none)

variable {name line : Text} {found found' : Option Text}

theorem Looks.unique {offset : Nat} (h : Looks name line offset found)
    (h' : Looks name line offset found') : found = found' := by
  induction h with
  | stop h =>
    cases h' with
    | stop h' => cases h.symm.trans h'; rfl
    | goOn h' _ => cases h.symm.trans h'
  | goOn h _ ih =>
    cases h' with
    | stop h' => cases h.symm.trans h'
    | goOn h' later => cases h.symm.trans h'; exact ih later

/-! ## Quotes -/

/-- No cut at a quote goes through a character, and they enclose what is read between them. -/
theorem encloses?_eq (t : Text) : encloses? t = some (enclosed? t) := by
  cases t with
  | nil => rfl
  | cons quote rest =>
    rw [encloses?, enclosed?, List.head?_cons]
    by_cases hquote : quote = '"' ∨ quote = '\''
    · have hsize : byteLength [quote] = 1 := by rcases hquote with rfl | rfl <;> rfl
      have hrest : Text.fromByte? 1 (quote :: rest) = some rest := by
        rw [← hsize]
        exact Text.fromByte?_append [quote] rest
      simp only [if_pos hquote, hrest, Option.bind_eq_bind, Option.bind_some, Text.byteOf?]
      cases hcut : Text.cut? [quote] rest with
      | none => rfl
      | some pieces =>
        obtain ⟨before, after⟩ := pieces
        obtain ⟨rfl, -⟩ := Text.cut?_eq_some_iff.1 hcut
        rw [List.append_assoc]
        simp only [Option.map_some, Text.upToByte?_append]
    · simp only [if_neg hquote]

/-! ## Where a name stands -/

theorem asciiLower_take_eq_iff {t : Text} :
    asciiLower (t.take name.length) = name ↔ name <+: asciiLower t := by
  rw [List.prefix_iff_eq_take, asciiLower, asciiLower, List.map_take, eq_comm]

theorem attributeValue?_cons_of_not {c : Char} {rest : Text}
    (h : isBlank c = true → ¬name <+: asciiLower rest) :
    attributeValue? name (c :: rest) = attributeValue? name rest := by
  have hnamed :
      (isBlank c && decide (asciiLower (rest.take name.length) = name)) = false := by
    rw [Bool.and_eq_false_iff]
    cases hc : isBlank c with
    | false => exact .inl rfl
    | true => exact .inr (decide_eq_false (mt asciiLower_take_eq_iff.1 (h hc)))
  rw [attributeValue?]
  simp only [hnamed]
  rfl

theorem attributeValue?_cons_of_prefix {c : Char} {rest : Text} (hc : isBlank c = true)
    (h : name <+: asciiLower rest) : attributeValue? name (c :: rest) =
      (afterEquals? (rest.drop name.length)).or (attributeValue? name rest) := by
  have hnamed :
      (isBlank c && decide (asciiLower (rest.take name.length) = name)) = true := by
    rw [hc, Bool.true_and]
    exact decide_eq_true (asciiLower_take_eq_iff.2 h)
  rw [attributeValue?]
  simp only [hnamed, if_true]
  cases afterEquals? (rest.drop name.length) <;> rfl

theorem attributeValue?_eq_none {t : Text} (h : ¬name <:+: asciiLower t) :
    attributeValue? name t = none := by
  induction t with
  | nil => rfl
  | cons c t ih =>
    have ht : ¬name <:+: asciiLower t := fun ht =>
      h (ht.trans (List.suffix_cons c.toLower (asciiLower t)).isInfix)
    rw [attributeValue?_cons_of_not fun _ hprefix => ht hprefix.isInfix, ih ht]

/-- The search may start behind characters in front of which no name stands, if the last of them is
kept. -/
theorem attributeValue?_getLast? (before : Text) {front rest : Text}
    (h : ∀ n < front.length, ¬name <+: (asciiLower (front ++ rest)).drop n) :
    attributeValue? name (before.getLast?.toList ++ (front ++ rest)) =
      attributeValue? name ((before ++ front).getLast?.toList ++ rest) := by
  induction front generalizing before with
  | nil => rw [List.append_nil, List.nil_append]
  | cons c front ih =>
    have hfirst : ¬name <+: asciiLower (c :: front ++ rest) := h 0 (Nat.succ_pos _)
    have hlater : ∀ n < front.length, ¬name <+: (asciiLower (front ++ rest)).drop n :=
      fun n hn => h (n + 1) (Nat.succ_lt_succ hn)
    have hstep : attributeValue? name (before.getLast?.toList ++ (c :: front ++ rest)) =
        attributeValue? name (c :: front ++ rest) := by
      cases before.getLast? with
      | none => rfl
      | some d => exact attributeValue?_cons_of_not fun _ => hfirst
    have hnext := ih (before ++ [c]) hlater
    rw [List.getLast?_concat, List.append_assoc, List.singleton_append] at hnext
    exact hstep.trans hnext

/-- Nothing is found in a name itself, as it holds no blank. -/
theorem attributeValue?_word {word : Text} (hword : ∀ c ∈ word, isBlank c = false) (rest : Text) :
    attributeValue? name (word ++ rest) =
      attributeValue? name (word.getLast?.toList ++ rest) := by
  induction word with
  | nil => rfl
  | cons c word ih =>
    obtain ⟨hc, hword⟩ := List.forall_mem_cons.1 hword
    by_cases hnil : word = []
    · subst hnil
      rfl
    · have hlast : (c :: word).getLast? = word.getLast? := List.getLast?_cons_of_ne_nil hnil
      rw [hlast, ← ih hword, List.cons_append, attributeValue?_cons_of_not]
      exact fun hblank => absurd hblank (by simp [hc])

/-! ## The whole search -/

theorem exists_name {rest b a : Text} (hcut : Text.cut? name (asciiLower rest) = some (b, a)) :
    ∃ front word after, rest = front ++ (word ++ after) ∧ asciiLower front = b ∧
      asciiLower word = name ∧
      ∀ before, attributeValue? name (before.getLast?.toList ++ rest) =
        attributeValue? name ((before ++ front).getLast?.toList ++ (word ++ after)) := by
  obtain ⟨hlower, hfirst⟩ := Text.cut?_eq_some_iff.1 hcut
  rw [List.append_assoc] at hlower
  obtain ⟨front, rest, rfl, rfl, hrest⟩ := Text.exists_of_asciiLower_eq_append hlower
  obtain ⟨word, after, rfl, hword, -⟩ := Text.exists_of_asciiLower_eq_append hrest
  refine ⟨front, word, after, rfl, rfl, hword, fun before => ?_⟩
  exact attributeValue?_getLast? before fun n hn => hfirst n (by simpa [asciiLower] using hn)

theorem getLast?_any_asciiLower (t : Text) :
    (asciiLower t).getLast?.any isBlank = t.getLast?.any isBlank := by
  rw [asciiLower, List.getLast?_map]
  cases t.getLast? with
  | none => rfl
  | some c => exact Text.isBlank_toLower c

theorem look?_append (before : Text) {front word after : Text} (hword : asciiLower word = name)
    (hcut : Text.cut? name (asciiLower (front ++ (word ++ after))) =
      some (asciiLower front, asciiLower after)) :
    look? name (before ++ (front ++ (word ++ after))) (byteLength before) =
      if (before ++ front).getLast?.any isBlank then
        some ((afterEquals? after).elim
          (.goOn (byteLength (before ++ front ++ word))) fun value => .stop (enclosed? value))
      else some (.goOn (byteLength (before ++ front ++ word))) := by
  have hrest : Text.fromByte? (byteLength before)
      (asciiLower (before ++ (front ++ (word ++ after)))) =
        some (asciiLower (front ++ (word ++ after))) := by
    rw [Text.asciiLower_append, ← Text.byteLength_asciiLower before, Text.fromByte?_append]
  have hplace : byteLength before + byteLength (asciiLower front) =
      byteLength (asciiLower (before ++ front)) := by
    rw [Text.byteLength_asciiLower, Text.byteLength_asciiLower, Text.byteLength_append]
  have hbefore : Text.upToByte? (byteLength (asciiLower (before ++ front)))
      (asciiLower (before ++ (front ++ (word ++ after)))) = some (asciiLower (before ++ front)) := by
    rw [← List.append_assoc, Text.asciiLower_append (before ++ front), Text.upToByte?_append]
  have hnext : byteLength (asciiLower (before ++ front)) + byteLength name =
      byteLength (before ++ front ++ word) := by
    rw [← hword, Text.byteLength_asciiLower, Text.byteLength_asciiLower, ← Text.byteLength_append]
  have hafter : Text.fromByte? (byteLength (before ++ front ++ word))
      (before ++ (front ++ (word ++ after))) = some after := by
    rw [← List.append_assoc, ← List.append_assoc, Text.fromByte?_append]
  rw [look?]
  simp only [hrest, Option.bind_eq_bind, Option.bind_some, Text.byteOf?, hcut, Option.map_some,
    hplace, hbefore, hnext, hafter, getLast?_any_asciiLower, encloses?_eq]
  cases afterEquals? after <;> rfl

/-- From behind any front of a line the looks find what the search finds in the rest. The last
character of the front matters, as a blank in front of a name. -/
theorem looks_of_eq_append (hne : name ≠ []) (hblank : ∀ c ∈ name, isBlank c = false)
    {before rest : Text} (hline : line = before ++ rest) :
    Looks name line (byteLength before)
      ((attributeValue? name (before.getLast?.toList ++ rest)).bind enclosed?) := by
  induction hlength : rest.length using Nat.strong_induction_on generalizing before rest with
  | _ n ih =>
  cases hcut : Text.cut? name (asciiLower rest) with
  | none =>
    have hnone : ¬name <:+: asciiLower rest := Text.cut?_eq_none_iff.1 hcut
    have hlook : look? name line (byteLength before) = some (.stop none) := by
      rw [look?, hline, Text.asciiLower_append, ← Text.byteLength_asciiLower before,
        Text.fromByte?_append, Option.bind_eq_bind, Option.bind_some, Text.byteOf?, hcut]
      rfl
    have hvalue : attributeValue? name (before.getLast?.toList ++ rest) = none := by
      rw [← attributeValue?_eq_none hnone]
      cases before.getLast? with
      | none => rfl
      | some c => exact attributeValue?_cons_of_not fun _ h => hnone h.isInfix
    rw [hvalue]
    exact .stop hlook
  | some pieces =>
    obtain ⟨b, a⟩ := pieces
    obtain ⟨front, word, after, rfl, rfl, hword, hvalue⟩ := exists_name hcut
    have ha : a = asciiLower after := by
      have hlower := (Text.cut?_eq_some_iff.1 hcut).1
      rw [Text.asciiLower_append, Text.asciiLower_append, hword, List.append_assoc] at hlower
      exact (List.append_cancel_left (List.append_cancel_left hlower)).symm
    have hwordLength : word.length = name.length := by rw [← hword, asciiLower, List.length_map]
    have hwordBlank : ∀ c ∈ word, isBlank c = false := fun c hc => by
      rw [← Text.isBlank_toLower]
      exact hblank _ (hword ▸ List.mem_map_of_mem hc)
    have hshort : after.length < n := by
      have := List.length_pos_iff.2 hne
      simp only [List.length_append] at hlength
      omega
    have hword_ne : word ≠ [] := fun h => hne (by rw [← hword, h]; rfl)
    have hlast : (before ++ front ++ word).getLast? = word.getLast? := by
      rw [List.getLast?_append, Option.or_eq_left_of_isSome (by simpa using hword_ne)]
    -- behind the name, the search goes on with its last character
    have hlater : Looks name line (byteLength (before ++ front ++ word))
        ((attributeValue? name ((before ++ front ++ word).getLast?.toList ++ after)).bind enclosed?) :=
      ih _ hshort (by rw [hline]; simp) rfl
    rw [hlast, ← attributeValue?_word hwordBlank] at hlater
    have hlook := look?_append before hword (ha ▸ hcut)
    rw [← hline] at hlook
    rw [hvalue before]
    have hprefix : name <+: asciiLower (word ++ after) := by
      rw [Text.asciiLower_append, hword]
      exact List.prefix_append _ _
    cases hb : (before ++ front).getLast? with
    | none =>
      rw [hb] at hlook
      exact .goOn hlook hlater
    | some c =>
      rw [hb] at hlook
      cases hc : isBlank c with
      | false =>
        rw [Option.any_some, hc] at hlook
        rw [Option.toList_some, List.singleton_append,
          attributeValue?_cons_of_not fun h => absurd h (by simp [hc])]
        exact .goOn hlook hlater
      | true =>
        rw [Option.any_some, hc, if_pos rfl] at hlook
        rw [Option.toList_some, List.singleton_append, attributeValue?_cons_of_prefix hc hprefix,
          ← hwordLength, List.drop_left]
        cases hequals : afterEquals? after with
        | none =>
          rw [hequals] at hlook
          exact .goOn hlook hlater
        | some value =>
          rw [hequals] at hlook
          exact .stop hlook

/-- The search in bytes always ends, cuts no character in two and finds what `attribute?` finds. -/
theorem reads_iff (hne : name ≠ []) (hblank : ∀ c ∈ name, isBlank c = false) :
    Reads name line found ↔ found = attribute? name line := by
  have hlooks : Looks name line 0 ((attributeValue? name line).bind enclosed?) :=
    looks_of_eq_append hne hblank (List.nil_append line).symm
  rw [Reads, attribute?]
  cases hcut : Text.cut? "<reference".toList (asciiLower line) with
  | none =>
    have hnot := Text.cut?_eq_none_iff.1 hcut
    exact ⟨fun h => h.2 hnot, fun h => ⟨fun hinfix => absurd hinfix hnot, fun _ => h⟩⟩
  | some pieces =>
    have hinfix : "<reference".toList <:+: asciiLower line :=
      ⟨pieces.1, pieces.2, (Text.cut?_eq_some_iff.1 hcut).1.symm⟩
    rw [Option.isSome_some, if_pos rfl]
    exact ⟨fun h => (h.1 hinfix).unique hlooks, fun h => ⟨fun _ => h ▸ hlooks, absurd hinfix⟩⟩

end Directives

end BatchCompile
