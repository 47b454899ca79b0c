import BatchCompile.Json.Read
import BatchCompile.Proofs.Text.Pieces

/-!
# Values read back

`Reads room v` says that `v` is read as it was written, if at most `room` containers may stand
within each other. There is one lemma for each kind of value that a map is made of. The digits of a
natural number are read as that number, if it fits in 64 bits and no digit, point or exponent
follows (`number_ofNat`); a string is read as it was, whatever follows it (`stringTail_escaped`).
-/

namespace BatchCompile.Json

/-! ## Numbers -/

/-- The text goes on with nothing that belongs to a number. -/
def EndsNumber (t : Text) : Prop :=
  ∀ c ∈ t.head?, c.isDigit = false ∧ c ≠ '.' ∧ c ≠ 'e' ∧ c ≠ 'E'

theorem isDigit_digitChar {d : Nat} (h : d < 10) :
    (Nat.digitChar d).isDigit = true ∧ (Nat.digitChar d).toNat - '0'.toNat = d := by
  revert d
  decide

/-- The digits of a number come next: they are taken off the text one by one. -/
theorem takeDigits_toDigits {limit n : Nat} (h : n ≤ limit) (rest : Text) :
    takeDigits limit 0 0 (Nat.toDigits 10 n ++ rest) =
      takeDigits limit n (Nat.toDigits 10 n).length rest := by
  induction n using Nat.strongRecOn generalizing rest with
  | _ n ih =>
    by_cases hn : n < 10
    · obtain ⟨h₁, h₂⟩ := isDigit_digitChar hn
      rw [Nat.toDigits_of_lt_base hn, List.singleton_append, takeDigits, if_pos h₁]
      simp only [h₂, Nat.zero_mul, Nat.zero_add, if_neg (Nat.not_lt.2 h), List.length_singleton]
    · have hd : n % 10 < 10 := Nat.mod_lt _ (by omega)
      obtain ⟨h₁, h₂⟩ := isDigit_digitChar hd
      have hsum : n / 10 * 10 + n % 10 = n := Nat.div_add_mod' n 10
      rw [Nat.toDigits_of_base_le (by omega) (by omega), List.append_assoc, List.singleton_append,
        ih (n / 10) (by omega) (by omega), takeDigits, if_pos h₁]
      simp only [h₂, hsum, if_neg (Nat.not_lt.2 h), List.length_append, List.length_singleton]

theorem takeDigits_of_ends (limit n count : Nat) {t : Text} (h : EndsNumber t) :
    takeDigits limit n count t = (n, count, t) := by
  cases t with
  | nil => rfl
  | cons c t =>
    have := (h c rfl).1
    rw [takeDigits, if_neg (by simp [this])]

theorem head?_toDigits {n : Nat} (h : 0 < n) :
    ∃ c t, Nat.toDigits 10 n = c :: t ∧ c.isDigit = true ∧ c ≠ '0' := by
  induction n using Nat.strongRecOn with
  | _ n ih =>
    by_cases hn : n < 10
    · refine ⟨Nat.digitChar n, [], Nat.toDigits_of_lt_base hn, (isDigit_digitChar hn).1,
        fun hc => ?_⟩
      have := (isDigit_digitChar hn).2
      rw [hc] at this
      omega
    · obtain ⟨c, t, ht, hc⟩ := ih (n / 10) (by omega) (by omega)
      refine ⟨c, t ++ [Nat.digitChar (n % 10)], ?_, hc⟩
      rw [Nat.toDigits_of_base_le (by omega) (by omega), ht, List.cons_append]

theorem toDigits_eq_cons (n : Nat) :
    ∃ c t, Nat.toDigits 10 n = c :: t ∧ c.isDigit = true ∧ (c = '0' → t = []) := by
  by_cases h : 0 < n
  · obtain ⟨c, t, ht, hc, h0⟩ := head?_toDigits h
    exact ⟨c, t, ht, hc, fun h => absurd h h0⟩
  · obtain rfl : n = 0 := by omega
    exact ⟨'0', [], by decide, by decide, fun _ => rfl⟩

theorem number_ofNat {n : Nat} (hn : n ≤ maxSignificand) {rest : Text} (h : EndsNumber rest) :
    number true (Text.ofNat n ++ rest) = .ok (.integer n, rest) := by
  have htake : takeDigits maxSignificand 0 0 (Text.ofNat n ++ rest) =
      (n, (Nat.toDigits 10 n).length, rest) := by
    rw [Text.ofNat, takeDigits_toDigits hn, takeDigits_of_ends _ _ _ h]
  obtain ⟨c, t, ht, hc, h0⟩ := toDigits_eq_cons n
  have hmore : rest.takeWhile Char.isDigit = [] := by
    cases rest with
    | nil => rfl
    | cons d rest => rw [List.takeWhile_cons, if_neg (by simp [(h d rfl).1])]
  have hlead : (decide (c = '0') && digitNext (t ++ rest)) = false := by
    by_cases hc0 : c = '0'
    · rw [h0 hc0, List.nil_append]
      cases rest with
      | nil => simp [digitNext]
      | cons d rest => simp [digitNext, (h d rfl).1]
    · simp [hc0]
  have htext : Text.ofNat n ++ rest = c :: (t ++ rest) := by rw [Text.ofNat, ht, List.cons_append]
  unfold number
  rw [htext] at htake ⊢
  simp only [hc, hlead, htake, hmore, List.length_nil, List.drop_zero]
  cases rest with
  | nil => rfl
  | cons d rest =>
    obtain ⟨-, h₁, h₂, h₃⟩ := h d rfl
    simp [exponentMark?, h₁, h₂, h₃, whole]

/-! ## Strings -/

theorem escapedControl_eq (n : Fin 32) :
    escapedControl (Char.ofNat n) =
      ['\\', 'u', '0', '0', Nat.digitChar (n / 16), Nat.digitChar (n % 16)] ∧
    hexUnit? '0' '0' (Nat.digitChar (n / 16)) (Nat.digitChar (n % 16)) = some (UInt16.ofNat n) := by
  revert n
  decide

theorem stringChar_control {c : Char} (h : c.toNat < 0x20) (rest : Text) :
    stringChar (escapedControl c ++ rest) = .ok (some c, rest) := by
  obtain ⟨ht, hu⟩ := escapedControl_eq ⟨c.toNat, h⟩
  have hc : Char.ofNat c.toNat = c := Char.ofNat_toNat c
  have hn : (UInt16.ofNat c.toNat).toNat = c.toNat := by
    rw [UInt16.toNat_ofNat']
    omega
  have hlow : Text.Utf16.isLow (UInt16.ofNat c.toNat) = false := by
    simp only [Text.Utf16.isLow, UInt16.le_iff_toNat_le, UInt16.lt_iff_toNat_lt, hn]
    simp
    omega
  have hhigh : Text.Utf16.isHigh (UInt16.ofNat c.toNat) = false := by
    simp only [Text.Utf16.isHigh, UInt16.le_iff_toNat_le, UInt16.lt_iff_toNat_lt, hn]
    simp
    omega
  simp only [hc] at ht hu
  rw [ht]
  simp [stringChar, escapedChar, codedChar, codeUnit, hu, hlow, hhigh, hn, hc, bind, Except.bind,
    Except.map]

theorem stringChar_escaped (c : Char) (rest : Text) :
    stringChar (escaped c ++ rest) = .ok (some c, rest) := by
  unfold escaped
  split
  · rename_i h
    rcases h with rfl | rfl <;> rfl
  split
  · subst c; rfl
  split
  · subst c; rfl
  split
  · subst c; rfl
  split
  · subst c; rfl
  split
  · subst c; rfl
  split
  · rename_i h
    exact stringChar_control h rest
  · rename_i hq _ _ _ _ _ hc
    rw [not_or] at hq
    rw [List.singleton_append, stringChar, if_neg hq.1, if_neg hq.2, if_neg hc]

theorem escaped_ne_nil (c : Char) : escaped c ≠ [] := by
  intro h
  have := stringChar_escaped c []
  rw [h] at this
  cases this

theorem length_le_flatMap_escaped (t : Text) : t.length ≤ (t.flatMap escaped).length := by
  induction t with
  | nil => exact Nat.le_refl 0
  | cons c t ih =>
    have := List.length_pos_iff.2 (escaped_ne_nil c)
    rw [List.flatMap_cons, List.length_append, List.length_cons]
    omega

theorem stringFrom_escaped (t read rest : Text) {bound : Nat} (h : t.length < bound) :
    stringFrom bound read (t.flatMap escaped ++ '"' :: rest) = .ok (read.reverse ++ t, rest) := by
  induction t generalizing read bound with
  | nil =>
    obtain ⟨bound, rfl⟩ := Nat.exists_eq_succ_of_ne_zero (Nat.ne_zero_of_lt h)
    rw [List.append_nil]
    rfl
  | cons c t ih =>
    obtain ⟨bound, rfl⟩ := Nat.exists_eq_succ_of_ne_zero (Nat.ne_zero_of_lt h)
    rw [List.flatMap_cons, List.append_assoc, stringFrom, stringChar_escaped]
    show stringFrom bound (c :: read) _ = _
    rw [ih _ (by simpa using h), List.reverse_cons, List.append_assoc, List.singleton_append]

/-- A string is read as it was written, up to its closing quote. -/
theorem stringTail_escaped (t rest : Text) :
    stringTail (t.flatMap escaped ++ '"' :: rest) = .ok (t, rest) := by
  have := length_le_flatMap_escaped t
  refine stringFrom_escaped t [] rest ?_
  rw [List.length_append]
  omega

/-! ## Values -/

/-- What follows a value: the end of the document, or one of the characters after an item. -/
def EndsValue (t : Text) : Prop :=
  ∀ c ∈ t.head?, c = ',' ∨ c = ']' ∨ c = '\x7d'

def opens (c : Char) : Bool :=
  c ≠ ' ' && c ≠ '\n' && c ≠ '\t' && c ≠ '\r' && c ≠ ']' && c ≠ '\x7d' && c ≠ ','

/-- A value is read as it was written. -/
structure Reads (room : Nat) (v : Value) : Prop where
  start : ∃ c t, v.text = c :: t ∧ opens c = true
  back : ∀ rest, EndsValue rest → value room (v.text ++ rest) = .ok (v, rest)

theorem EndsValue.endsNumber {t : Text} (h : EndsValue t) : EndsNumber t := by
  intro c hc
  rcases h c hc with rfl | rfl | rfl <;> decide

theorem skipBlanks_cons {c : Char} (t : Text) (h : opens c = true) :
    skipBlanks (c :: t) = c :: t := by
  unfold opens at h
  unfold skipBlanks
  rw [List.dropWhile_cons, if_neg]
  simp_all

/-! ## Values as they are written -/

theorem text_string (t : Text) : Value.text (.string t) = '"' :: (t.flatMap escaped ++ ['"']) :=
  rfl

theorem text_natural (n : Nat) : Value.text (.number (.integer n)) = Text.ofNat n := by
  show Text.ofInt n = Text.ofNat n
  simp [Text.ofInt]

theorem itemTexts_eq (vs : List Value) : Value.itemTexts vs = vs.map Value.text := by
  induction vs with
  | nil => rfl
  | cons v vs ih => exact congrArg (v.text :: ·) ih

theorem text_array (vs : List Value) :
    Value.text (.array vs) = '[' :: (Text.join [','] (vs.map Value.text) ++ [']']) :=
  itemTexts_eq vs ▸ rfl

def memberText (m : Text × Value) : Text :=
  stringText m.1 ++ ':' :: m.2.text

theorem memberTexts_eq (ms : List (Text × Value)) : Value.memberTexts ms = ms.map memberText := by
  induction ms with
  | nil => rfl
  | cons m ms ih => exact congrArg (memberText m :: ·) ih

theorem text_object (ms : List (Text × Value)) :
    Value.text (.object ms) = '\x7b' :: (Text.join [','] (ms.map memberText) ++ ['\x7d']) :=
  memberTexts_eq ms ▸ rfl

/-! ## Values without items -/

theorem reads_string (room : Nat) (t : Text) : Reads room (.string t) where
  start := ⟨'"', _, text_string t, by decide⟩
  back rest _ := by
    rw [text_string, List.cons_append, List.append_assoc, List.singleton_append, value,
      skipBlanks_cons _ (by decide)]
    simp [scalar, stringTail_escaped, bind, Except.bind, pure, Except.pure]

theorem opens_of_isDigit {c : Char} (h : c.isDigit = true) : opens c = true := by
  have hne : ∀ d : Char, d.isDigit = false → c ≠ d := by
    rintro d hd rfl
    simp [h] at hd
  simp [opens, hne]

theorem value_of_isDigit (room : Nat) {c : Char} {t : Text} (h : c.isDigit = true) :
    value room (c :: t) = (number true (c :: t)).map fun (n, rest) => (.number n, rest) := by
  have hne : ∀ d : Char, d.isDigit = false → c ≠ d := by
    rintro d hd rfl
    simp [h] at hd
  have hscalar : scalar (c :: t) =
      (number true (c :: t)).map fun (n, rest) => (.number n, rest) := by
    unfold scalar
    split
    all_goals (rename_i heq; cases heq)
    · exact absurd rfl (hne 'n' (by decide))
    · exact absurd rfl (hne 't' (by decide))
    · exact absurd rfl (hne 'f' (by decide))
    · exact absurd rfl (hne '"' (by decide))
    · exact absurd rfl (hne '-' (by decide))
    · rw [if_pos h]
      cases number true (c :: t) <;> rfl
  rw [value, skipBlanks_cons _ (opens_of_isDigit h), ← hscalar]
  split
  · rename_i heq
    cases heq
    exact absurd rfl (hne _ (by decide))
  · rename_i heq
    cases heq
    exact absurd rfl (hne _ (by decide))
  · rfl

theorem reads_natural (room : Nat) {n : Nat} (h : n ≤ maxSignificand) :
    Reads room (.number (.integer n)) := by
  obtain ⟨c, t, ht, hc, -⟩ := toDigits_eq_cons n
  refine ⟨⟨c, t, by rw [text_natural, Text.ofNat, ht], opens_of_isDigit hc⟩, fun rest hrest => ?_⟩
  have hread := number_ofNat h hrest.endsNumber
  rw [text_natural]
  rw [Text.ofNat, ht, List.cons_append] at hread ⊢
  rw [value_of_isDigit room hc, hread]
  rfl

/-! ## Lists -/

/-- What stands in a list or an object after its first item. -/
def laterText (texts : List Text) : Text :=
  texts.flatMap fun t => ',' :: t

theorem join_eq_laterText (t : Text) (texts : List Text) :
    Text.join [','] (t :: texts) = t ++ laterText texts := by
  induction texts generalizing t with
  | nil => simp [laterText]
  | cons u texts ih =>
    rw [Text.join_cons _ _ (List.cons_ne_nil _ _), ih]
    simp [laterText]

theorem endsValue_laterText (texts : List Text) {t : Text} (h : EndsValue t) :
    EndsValue (laterText texts ++ t) := by
  cases texts with
  | nil => exact h
  | cons u texts =>
    rintro c hc
    cases hc
    exact .inl rfl

theorem length_le_laterText (texts : List Text) : texts.length ≤ (laterText texts).length := by
  induction texts with
  | nil => exact Nat.le_refl 0
  | cons t texts ih =>
    rw [laterText, List.flatMap_cons, List.length_append, List.length_cons, List.length_cons]
    exact Nat.le_trans (Nat.succ_le_succ ih) (by rw [laterText]; omega)

theorem nextItem_first {c : Char} (t : Text) (h : opens c = true) :
    nextItem true (c :: t) = .ok (some (c :: t)) := by
  have hne : c ≠ ']' := by
    rintro rfl
    cases h
  rw [nextItem, skipBlanks_cons _ h]
  split
  · rename_i heq
    cases heq
  · rename_i heq
    cases heq
    exact absurd rfl hne
  · rename_i heq
    cases heq
    rfl

theorem nextItem_later {c : Char} (t : Text) (h : opens c = true) :
    nextItem false (',' :: c :: t) = .ok (some (c :: t)) := by
  have hne : c ≠ ']' := by
    rintro rfl
    cases h
  have hcomma : skipBlanks (',' :: c :: t) = ',' :: c :: t := rfl
  rw [nextItem, hcomma]
  split
  · rename_i heq
    cases heq
  · rename_i heq
    cases heq
  rename_i heq
  cases heq
  rw [if_neg Bool.false_ne_true, if_pos rfl, skipBlanks_cons _ h]
  split
  · rename_i heq
    cases heq
  · rename_i heq
    cases heq
    exact absurd rfl hne
  · rfl

variable {room : Nat}

/-- An item is read off the text, behind what `nextItem` passes over. -/
theorem itemsFrom_item {v : Value} (hv : Reads room v) {first : Bool} (lead : Text) {rest : Text}
    (hlead : ∀ c t, opens c = true → nextItem first (lead ++ c :: t) = .ok (some (c :: t)))
    (hrest : EndsValue rest) (bound : Nat) :
    itemsFrom (value room) (bound + 1) first (lead ++ (v.text ++ rest)) =
      (itemsFrom (value room) bound false rest).map fun (more, rest) => (v :: more, rest) := by
  obtain ⟨c, t, ht, hc⟩ := hv.start
  have hback := hv.back rest hrest
  rw [itemsFrom]
  rw [ht, List.cons_append] at hback ⊢
  rw [hlead c _ hc]
  simp only [bind, Except.bind, hback]
  cases itemsFrom (value room) bound false rest <;> rfl

theorem itemsFrom_later {vs : List Value} (h : ∀ v ∈ vs, Reads room v) (rest : Text)
    {bound : Nat} (hb : vs.length < bound) :
    itemsFrom (value room) bound false (laterText (vs.map Value.text) ++ ']' :: rest) =
      .ok (vs, ']' :: rest) := by
  induction vs generalizing bound with
  | nil =>
    obtain ⟨bound, rfl⟩ := Nat.exists_eq_succ_of_ne_zero (Nat.ne_zero_of_lt hb)
    rfl
  | cons v vs ih =>
    obtain ⟨bound, rfl⟩ := Nat.exists_eq_succ_of_ne_zero (Nat.ne_zero_of_lt hb)
    have hend : EndsValue (laterText (vs.map Value.text) ++ ']' :: rest) :=
      endsValue_laterText _ (by simp [EndsValue])
    have htext : laterText ((v :: vs).map Value.text) ++ ']' :: rest =
        [','] ++ (v.text ++ (laterText (vs.map Value.text) ++ ']' :: rest)) := by
      simp [laterText]
    rw [htext, itemsFrom_item (h v List.mem_cons_self) [','] (fun c t => nextItem_later t) hend,
      ih (fun u hu => h u (List.mem_cons_of_mem _ hu)) (by simpa using hb)]
    rfl

theorem items_texts {vs : List Value} (h : ∀ v ∈ vs, Reads room v) (rest : Text) :
    items (value room) (Text.join [','] (vs.map Value.text) ++ ']' :: rest) =
      .ok (vs, ']' :: rest) := by
  cases vs with
  | nil => rfl
  | cons v vs =>
    have hend : EndsValue (laterText (vs.map Value.text) ++ ']' :: rest) :=
      endsValue_laterText _ (by simp [EndsValue])
    have hlater := length_le_laterText (vs.map Value.text)
    rw [List.length_map] at hlater
    have hitem := itemsFrom_item (h v List.mem_cons_self) [] (fun c t => nextItem_first t) hend
    rw [List.map_cons, join_eq_laterText, List.append_assoc, items]
    refine (hitem _).trans ?_
    rw [itemsFrom_later (fun u hu => h u (List.mem_cons_of_mem _ hu)) rest]
    · rfl
    · simp only [List.length_append, List.length_cons]
      omega

theorem reads_array {vs : List Value} (h : ∀ v ∈ vs, Reads room v) :
    Reads (room + 1) (.array vs) where
  start := ⟨'[', _, text_array vs, by decide⟩
  back rest _ := by
    rw [text_array, List.cons_append, List.append_assoc, List.singleton_append, value,
      skipBlanks_cons _ (by decide)]
    simp only [items_texts h]
    rfl

/-! ## Objects -/

theorem setMember_of_notMem {name : Text} (v : Value) {ms : List (Text × Value)}
    (h : name ∉ ms.map Prod.fst) : setMember name v ms = ms ++ [(name, v)] := by
  induction ms with
  | nil => rfl
  | cons m ms ih =>
    rw [List.map_cons, List.mem_cons, not_or] at h
    rw [setMember, if_neg (Ne.symm h.1), ih h.2, List.cons_append]

/-- A member under a new name is read off the text, behind what `nextName` passes over. -/
theorem membersFrom_member {m : Text × Value} (hv : Reads room m.2) (first : Bool)
    (lead : Text) {rest : Text} (hlead : ∀ t, nextName first (lead ++ '"' :: t) = .ok (some t))
    (hrest : EndsValue rest) {read : List (Text × Value)} (hnew : m.1 ∉ read.map Prod.fst)
    (bound : Nat) :
    membersFrom (value room) (bound + 1) first read (lead ++ (memberText m ++ rest)) =
      membersFrom (value room) bound false (read ++ [m]) rest := by
  have htext : memberText m ++ rest =
      '"' :: (m.1.flatMap escaped ++ '"' :: (':' :: (m.2.text ++ rest))) := by
    simp [memberText, stringText]
  rw [membersFrom, htext, hlead]
  simp only [bind, Except.bind, stringTail_escaped]
  rw [show colon (':' :: (m.2.text ++ rest)) = .ok (m.2.text ++ rest) from rfl]
  simp only [hv.back rest hrest, setMember_of_notMem m.2 hnew]

theorem membersFrom_later {ms : List (Text × Value)} (h : ∀ m ∈ ms, Reads room m.2)
    {read : List (Text × Value)} (hnew : ((read ++ ms).map Prod.fst).Nodup) (rest : Text)
    {bound : Nat} (hb : ms.length < bound) :
    membersFrom (value room) bound false read (laterText (ms.map memberText) ++ '\x7d' :: rest) =
      .ok (read ++ ms, '\x7d' :: rest) := by
  induction ms generalizing bound read with
  | nil =>
    obtain ⟨bound, rfl⟩ := Nat.exists_eq_succ_of_ne_zero (Nat.ne_zero_of_lt hb)
    rw [List.append_nil]
    rfl
  | cons m ms ih =>
    obtain ⟨bound, rfl⟩ := Nat.exists_eq_succ_of_ne_zero (Nat.ne_zero_of_lt hb)
    have hend : EndsValue (laterText (ms.map memberText) ++ '\x7d' :: rest) :=
      endsValue_laterText _ (by simp [EndsValue])
    have htext : laterText ((m :: ms).map memberText) ++ '\x7d' :: rest =
        [','] ++ (memberText m ++ (laterText (ms.map memberText) ++ '\x7d' :: rest)) := by
      simp [laterText]
    have hm : m.1 ∉ read.map Prod.fst := by
      rw [List.map_append, List.map_cons] at hnew
      intro hmem
      exact (List.nodup_append.1 hnew).2.2 _ hmem _ List.mem_cons_self rfl
    rw [htext, membersFrom_member (h m List.mem_cons_self) false [','] (fun t => rfl) hend hm,
      ih (fun u hu => h u (List.mem_cons_of_mem _ hu)) (by simpa using hnew) (by simpa using hb)]
    simp

theorem members_texts {ms : List (Text × Value)} (h : ∀ m ∈ ms, Reads room m.2)
    (hnew : (ms.map Prod.fst).Nodup) (rest : Text) :
    members (value room) (Text.join [','] (ms.map memberText) ++ '\x7d' :: rest) =
      .ok (ms, '\x7d' :: rest) := by
  cases ms with
  | nil => rfl
  | cons m ms =>
    have hend : EndsValue (laterText (ms.map memberText) ++ '\x7d' :: rest) :=
      endsValue_laterText _ (by simp [EndsValue])
    have hlater := length_le_laterText (ms.map memberText)
    rw [List.length_map] at hlater
    have hnotin : m.1 ∉ ([] : List (Text × Value)).map Prod.fst := List.not_mem_nil
    have hmember :=
      membersFrom_member (h m List.mem_cons_self) true [] (fun t => rfl) hend hnotin
    rw [List.map_cons, join_eq_laterText, List.append_assoc, members]
    refine (hmember _).trans ?_
    rw [membersFrom_later (fun u hu => h u (List.mem_cons_of_mem _ hu)) (by simpa using hnew)]
    · rfl
    · simp only [List.length_append, List.length_cons]
      omega

theorem reads_object {ms : List (Text × Value)} (h : ∀ m ∈ ms, Reads room m.2)
    (hnew : (ms.map Prod.fst).Nodup) : Reads (room + 1) (.object ms) where
  start := ⟨'\x7b', _, text_object ms, by decide⟩
  back rest _ := by
    rw [text_object, List.cons_append, List.append_assoc, List.singleton_append, value,
      skipBlanks_cons _ (by decide)]
    simp only [members_texts h hnew]
    rfl

/-! ## Documents -/

theorem read_text {v : Value} (h : Reads maxDepth v) : Value.read v.text = .ok v := by
  have hback := h.back [] (by simp [EndsValue])
  rw [List.append_nil] at hback
  rw [Value.read, readDocument, hback]
  rfl

end BatchCompile.Json
