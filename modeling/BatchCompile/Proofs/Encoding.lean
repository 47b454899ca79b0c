import BatchCompile.Host
import Mathlib.Tactic.IntervalCases

/-!
# Reading files back

`decode` undoes every encoding: what was written behind a mark is read back with that mark, and
what was written without one is read back, but for a first U+FEFF, which spells the mark itself
(`decode_encoded`). The bytes of a text start with no mark of UTF-16 (`detect_encode`), since no
character is written with the bytes of one.

In UTF-8 the machine of `decodeFrom` reads the bytes of one character and is between characters
again. In UTF-16 a character is no half of a pair, so a single unit is read as the character it
stands for, and a high half before a low half as the one that they spell.
-/

/-! ## UTF-8 -/

namespace BatchCompile.Text.Utf8

/-! ### Steps of the machine -/

theorem decodeFrom_ascii {b : UInt8} (h : b < 0x80) (rest : List UInt8) :
    decodeFrom none (b :: rest) = Char.ofNat b.toNat :: decodeFrom none rest := by
  simp only [decodeFrom, step, start, if_pos h, List.singleton_append]

theorem decodeFrom_lead {b : UInt8} {p : Pending} (h : ¬b < 0x80) (hp : lead? b = some p)
    (rest : List UInt8) : decodeFrom none (b :: rest) = decodeFrom (some p) rest := by
  simp only [decodeFrom, step, start, if_neg h, hp, List.nil_append]

/-- A byte that goes on with a character: it holds six bits. -/
def trail (n : Nat) : UInt8 :=
  UInt8.ofNat (n % 0x40 + 0x80)

theorem toNat_trail (n : Nat) : (trail n).toNat = n % 0x40 + 0x80 :=
  UInt8.toNat_ofNat_of_lt (by simp only [UInt8.size]; omega)

section

variable {least greatest : UInt8} {n : Nat} (hleast : least.toNat ≤ n % 0x40 + 0x80)
  (hgreatest : n % 0x40 + 0x80 ≤ greatest.toNat)

include hleast hgreatest

theorem follows_trail : least ≤ trail n ∧ trail n ≤ greatest := by
  rw [UInt8.le_iff_toNat_le, UInt8.le_iff_toNat_le, toNat_trail]
  exact ⟨hleast, hgreatest⟩

theorem step_trail (owed bits : Nat) :
    step (some ⟨owed, least, greatest, bits⟩) (trail n) =
      let bits := bits * 0x40 + n % 0x40
      if owed ≤ 1 then ([Char.ofNat bits], none) else ([], some ⟨owed - 1, 0x80, 0xBF, bits⟩) := by
  have hbits : (n % 0x40 + 0x80) % 0x40 = n % 0x40 := by omega
  simp only [step, if_pos (follows_trail hleast hgreatest), toNat_trail, hbits]

/-- The byte behind the first one may be bounded more tightly than those that follow it. -/
theorem decodeFrom_second (owed bits : Nat) (rest : List UInt8) :
    decodeFrom (some ⟨owed + 2, least, greatest, bits⟩) (trail n :: rest) =
      decodeFrom (some ⟨owed + 1, 0x80, 0xBF, bits * 0x40 + n % 0x40⟩) rest := by
  rw [decodeFrom, step_trail hleast hgreatest]
  rfl

end

section

variable (bits n : Nat) (rest : List UInt8)

theorem least_trail : (0x80 : UInt8).toNat ≤ n % 0x40 + 0x80 :=
  Nat.le_add_left _ _

theorem trail_greatest : n % 0x40 + 0x80 ≤ (0xBF : UInt8).toNat := by
  show _ ≤ 0xBF
  omega

theorem decodeFrom_middle :
    decodeFrom (some ⟨2, 0x80, 0xBF, bits⟩) (trail n :: rest) =
      decodeFrom (some ⟨1, 0x80, 0xBF, bits * 0x40 + n % 0x40⟩) rest :=
  decodeFrom_second (least_trail n) (trail_greatest n) 0 bits rest

theorem decodeFrom_last :
    decodeFrom (some ⟨1, 0x80, 0xBF, bits⟩) (trail n :: rest) =
      Char.ofNat (bits * 0x40 + n % 0x40) :: decodeFrom none rest := by
  rw [decodeFrom, step_trail (least_trail n) (trail_greatest n)]
  rfl

end

/-! ### First bytes -/

theorem lead?_two {n : Nat} (h : 0xC2 ≤ n) (h' : n ≤ 0xDF) :
    lead? (UInt8.ofNat n) = some ⟨1, 0x80, 0xBF, n % 0x20⟩ := by
  interval_cases n <;> rfl

/-- After `E0` and `ED`, the second byte is bounded: no character is spelled longer than it must be,
and no half of a pair is spelled. -/
theorem lead?_three {n : Nat} (h : 0xE0 ≤ n) (h' : n ≤ 0xEF) :
    lead? (UInt8.ofNat n) = some ⟨2, if n = 0xE0 then 0xA0 else 0x80,
      if n = 0xED then 0x9F else 0xBF, n % 0x10⟩ := by
  interval_cases n <;> rfl

/-- After `F0` and `F4`, the second byte is bounded: no character is spelled longer than it must be,
and none above U+10FFFF is. -/
theorem lead?_four {n : Nat} (h : 0xF0 ≤ n) (h' : n ≤ 0xF4) :
    lead? (UInt8.ofNat n) = some ⟨3, if n = 0xF0 then 0x90 else 0x80,
      if n = 0xF4 then 0x8F else 0xBF, n % 8⟩ := by
  interval_cases n <;> rfl

theorem not_ascii {n : Nat} (h : 0x80 ≤ n) (h' : n < 0x100) : ¬UInt8.ofNat n < 0x80 := by
  rw [UInt8.lt_iff_toNat_lt, UInt8.toNat_ofNat_of_lt' h']
  exact Nat.not_lt.2 h

/-! ### Characters -/

theorem toNat_char (c : Char) :
    c.toNat < 0xD800 ∨ 0xDFFF < c.toNat ∧ c.toNat < 0x110000 :=
  c.valid

section

variable (c : Char) (rest : List UInt8)

theorem decodeFrom_one (h : c.toNat ≤ 0x7F) :
    decodeFrom none (UInt8.ofNat c.toNat :: rest) = c :: decodeFrom none rest := by
  have hn : (UInt8.ofNat c.toNat).toNat = c.toNat :=
    UInt8.toNat_ofNat_of_lt (by simp only [UInt8.size]; omega)
  have hascii : UInt8.ofNat c.toNat < 0x80 := by
    rw [UInt8.lt_iff_toNat_lt, hn]
    exact Nat.lt_succ_of_le h
  rw [decodeFrom_ascii hascii, hn, Char.ofNat_toNat]

theorem decodeFrom_two (h : 0x7F < c.toNat) (h' : c.toNat ≤ 0x7FF) :
    decodeFrom none (UInt8.ofNat (c.toNat / 0x40 % 0x20 + 0xC0) :: trail c.toNat :: rest) =
      c :: decodeFrom none rest := by
  have hbits : (c.toNat / 0x40 % 0x20 + 0xC0) % 0x20 * 0x40 + c.toNat % 0x40 = c.toNat := by omega
  rw [decodeFrom_lead (not_ascii (by omega) (by omega)) (lead?_two (by omega) (by omega)),
    decodeFrom_last, hbits, Char.ofNat_toNat]

theorem decodeFrom_three (h : 0x7FF < c.toNat) (h' : c.toNat ≤ 0xFFFF) :
    decodeFrom none (UInt8.ofNat (c.toNat / 0x1000 % 0x10 + 0xE0) :: trail (c.toNat / 0x40) ::
      trail c.toNat :: rest) = c :: decodeFrom none rest := by
  have hvalid := toNat_char c
  have hbits : ((c.toNat / 0x1000 % 0x10 + 0xE0) % 0x10 * 0x40 + c.toNat / 0x40 % 0x40) * 0x40 +
      c.toNat % 0x40 = c.toNat := by omega
  rw [decodeFrom_lead (not_ascii (by omega) (by omega)) (lead?_three (by omega) (by omega)),
    decodeFrom_second _ _ 0, decodeFrom_last, hbits, Char.ofNat_toNat]
  -- the bounds of the second byte: above 7FF it is not too small after `E0`, and no half of a pair
  -- makes it too large after `ED`
  · split
    · show 0xA0 ≤ _
      omega
    · show 0x80 ≤ _
      omega
  · split
    · show _ ≤ 0x9F
      omega
    · show _ ≤ 0xBF
      omega

theorem decodeFrom_four (h : 0xFFFF < c.toNat) :
    decodeFrom none (UInt8.ofNat (c.toNat / 0x40000 % 8 + 0xF0) :: trail (c.toNat / 0x1000) ::
      trail (c.toNat / 0x40) :: trail c.toNat :: rest) = c :: decodeFrom none rest := by
  have hvalid := toNat_char c
  have hbits : (((c.toNat / 0x40000 % 8 + 0xF0) % 8 * 0x40 + c.toNat / 0x1000 % 0x40) * 0x40 +
      c.toNat / 0x40 % 0x40) * 0x40 + c.toNat % 0x40 = c.toNat := by omega
  rw [decodeFrom_lead (not_ascii (by omega) (by omega)) (lead?_four (by omega) (by omega)),
    decodeFrom_second _ _ 1, decodeFrom_middle, decodeFrom_last, hbits, Char.ofNat_toNat]
  -- the same above FFFF after `F0`, and up to 10FFFF after `F4`
  · split
    · show 0x90 ≤ _
      omega
    · show 0x80 ≤ _
      omega
  · split
    · show _ ≤ 0x8F
      omega
    · show _ ≤ 0xBF
      omega

theorem decodeFrom_encodeChar :
    decodeFrom none (String.utf8EncodeChar c ++ rest) = c :: decodeFrom none rest := by
  rw [String.utf8EncodeChar.eq_1]
  split
  · exact decodeFrom_one c rest ‹_›
  split
  · exact decodeFrom_two c rest (Nat.lt_of_not_le ‹_›) ‹_›
  split
  · exact decodeFrom_three c rest (Nat.lt_of_not_le ‹_›) ‹_›
  · exact decodeFrom_four c rest (Nat.lt_of_not_le ‹_›)

end

theorem decode_encode (t : Text) : decode (encode t) = t := by
  rw [decode, encode]
  induction t with
  | nil => rfl
  | cons c t ih => rw [List.flatMap_cons, decodeFrom_encodeChar, ih]

end BatchCompile.Text.Utf8

/-! ## UTF-16 -/

namespace BatchCompile.Text.Utf16

theorem isHigh_iff (u : UInt16) : isHigh u = true ↔ 0xD800 ≤ u.toNat ∧ u.toNat < 0xDC00 := by
  simp [isHigh, UInt16.le_iff_toNat_le, UInt16.lt_iff_toNat_lt]

theorem isLow_iff (u : UInt16) : isLow u = true ↔ 0xDC00 ≤ u.toNat ∧ u.toNat < 0xE000 := by
  simp [isLow, UInt16.le_iff_toNat_le, UInt16.lt_iff_toNat_lt]

section

variable (rest : List UInt16)

theorem decodeFrom_single {u : UInt16} (h : isHigh u = false) (h' : isLow u = false) :
    decodeFrom none (u :: rest) = Char.ofNat u.toNat :: decodeFrom none rest := by
  simp [decodeFrom, step, start, h, h']

theorem decodeFrom_pair {high low : UInt16} (h : isHigh high = true) (h' : isLow low = true) :
    decodeFrom none (high :: low :: rest) = ofPair high low :: decodeFrom none rest := by
  simp [decodeFrom, step, start, h, h']

theorem decodeFrom_encodeChar (c : Char) :
    decodeFrom none (encodeChar c ++ rest) = c :: decodeFrom none rest := by
  have hvalid : c.toNat < 0xD800 ∨ 0xDFFF < c.toNat ∧ c.toNat < 0x110000 := c.valid
  unfold encodeChar
  simp only
  split
  · rename_i hsmall
    have hunit : (UInt16.ofNat c.toNat).toNat = c.toNat := UInt16.toNat_ofNat_of_lt' hsmall
    have hhigh : isHigh (UInt16.ofNat c.toNat) = false := by
      rw [Bool.eq_false_iff, ne_eq, isHigh_iff, hunit]
      omega
    have hlow : isLow (UInt16.ofNat c.toNat) = false := by
      rw [Bool.eq_false_iff, ne_eq, isLow_iff, hunit]
      omega
    rw [List.singleton_append, decodeFrom_single rest hhigh hlow, hunit, Char.ofNat_toNat]
  · let bits := c.toNat - 0x10000
    have hbits : bits < 0x100000 := by omega
    have hhigh : (UInt16.ofNat (0xD800 + bits / 0x400)).toNat = 0xD800 + bits / 0x400 :=
      UInt16.toNat_ofNat_of_lt' (by simp only [UInt16.size]; omega)
    have hlow : (UInt16.ofNat (0xDC00 + bits % 0x400)).toNat = 0xDC00 + bits % 0x400 :=
      UInt16.toNat_ofNat_of_lt' (by simp only [UInt16.size]; omega)
    have hisHigh : isHigh (UInt16.ofNat (0xD800 + bits / 0x400)) = true := by
      rw [isHigh_iff, hhigh]
      omega
    have hisLow : isLow (UInt16.ofNat (0xDC00 + bits % 0x400)) = true := by
      rw [isLow_iff, hlow]
      omega
    have hchar : ofPair (UInt16.ofNat (0xD800 + bits / 0x400))
        (UInt16.ofNat (0xDC00 + bits % 0x400)) = c := by
      rw [ofPair, hhigh, hlow]
      have : 0x10000 + (0xD800 + bits / 0x400 - 0xD800) * 0x400 + (0xDC00 + bits % 0x400 - 0xDC00) =
          c.toNat := by omega
      rw [this, Char.ofNat_toNat]
    rw [List.cons_append, List.singleton_append, decodeFrom_pair rest hisHigh hisLow, hchar]

end

theorem decode_encode (t : Text) : decode (encode t) = t := by
  rw [decode, encode]
  induction t with
  | nil => rfl
  | cons c t ih => rw [List.flatMap_cons, decodeFrom_encodeChar, ih]

end BatchCompile.Text.Utf16

/-! ## Files -/

namespace BatchCompile

open Text

/-! ### Units in bytes -/

def bigBytes (u : UInt16) : List UInt8 :=
  [UInt8.ofNat (u.toNat / 0x100), UInt8.ofNat (u.toNat % 0x100)]

def littleBytes (u : UInt16) : List UInt8 :=
  [UInt8.ofNat (u.toNat % 0x100), UInt8.ofNat (u.toNat / 0x100)]

theorem bigUnit_bytes (u : UInt16) :
    bigUnit (UInt8.ofNat (u.toNat / 0x100)) (UInt8.ofNat (u.toNat % 0x100)) = u := by
  have hu : u.toNat < 0x10000 := u.toNat_lt
  have hhigh : (UInt8.ofNat (u.toNat / 0x100)).toNat = u.toNat / 0x100 :=
    UInt8.toNat_ofNat_of_lt' (by simp only [UInt8.size]; omega)
  have hlow : (UInt8.ofNat (u.toNat % 0x100)).toNat = u.toNat % 0x100 :=
    UInt8.toNat_ofNat_of_lt' (by simp only [UInt8.size]; omega)
  rw [bigUnit, hhigh, hlow, Nat.div_add_mod', UInt16.ofNat_toNat]

theorem units_flatMap {unit : UInt8 → UInt8 → UInt16} {bytes : UInt16 → List UInt8}
    (h : ∀ u, ∃ a b, bytes u = [a, b] ∧ unit a b = u) (us : List UInt16) (extra : Option UInt8) :
    units unit (us.flatMap bytes ++ extra.toList) = us := by
  induction us with
  | nil => cases extra <;> rfl
  | cons u us ih =>
    obtain ⟨a, b, hbytes, hunit⟩ := h u
    rw [List.flatMap_cons, hbytes, List.append_assoc]
    show unit a b :: units unit (us.flatMap bytes ++ extra.toList) = u :: us
    rw [hunit, ih]

theorem units_bigBytes (us : List UInt16) (extra : Option UInt8) :
    units bigUnit (us.flatMap bigBytes ++ extra.toList) = us :=
  units_flatMap (fun u => ⟨_, _, bigBytes.eq_1 u, bigUnit_bytes u⟩) us extra

theorem units_littleBytes (us : List UInt16) (extra : Option UInt8) :
    units littleUnit (us.flatMap littleBytes ++ extra.toList) = us := by
  refine units_flatMap (fun u => ⟨_, _, littleBytes.eq_1 u, ?_⟩) us extra
  rw [littleUnit, bigUnit_bytes]

/-! ### Marks -/

/-- A text as it is read from a file without a mark. A first U+FEFF is taken for the mark. -/
def unmarked : Text → Text × Mark
  | [] => ([], .none)
  | c :: t => if c = '\uFEFF' then (t, .utf8) else (c :: t, .none)

/-- A file of text does not start with a byte that stands in no character. -/
theorem isPrefixOf_encode_of_lead {b : UInt8} (hb : Utf8.start b = ([replacement], none))
    (hne : b ≠ 0xEF) (bytes : List UInt8) (t : Text) :
    (b :: bytes).isPrefixOf (Utf8.encode t) = false := by
  rw [Bool.eq_false_iff, ne_eq, List.isPrefixOf_iff_prefix]
  rintro ⟨rest, hrest⟩
  -- read back, the text starts with the replacement character, and that is written `EF BF BD`
  have hback : t = replacement :: Utf8.decodeFrom none (bytes ++ rest) := by
    rw [← Utf8.decode_encode t, ← hrest, List.cons_append, Utf8.decode, Utf8.decodeFrom, Utf8.step,
      hb]
    rfl
  have hfirst := congrArg List.head? hrest
  rw [hback] at hfirst
  exact hne (Option.some.inj hfirst)

/-- Only a first U+FEFF is written like the mark of UTF-8. -/
theorem exists_of_encode_eq {t : Text} {rest : List UInt8}
    (h : Utf8.encode t = Mark.utf8.bytes ++ rest) :
    ∃ u, t = '\uFEFF' :: u ∧ Utf8.encode u = rest := by
  have hback : t = '\uFEFF' :: Utf8.decode rest := by
    rw [← Utf8.decode_encode t, h]
    rfl
  refine ⟨_, hback, ?_⟩
  have hbytes : Mark.utf8.bytes ++ Utf8.encode (Utf8.decode rest) = Mark.utf8.bytes ++ rest := by
    rw [← h, hback]
    rfl
  exact List.append_cancel_left hbytes

theorem detect_append (m : Mark) (h : m ≠ .none) (body : List UInt8) :
    Mark.detect (m.bytes ++ body) = m := by
  cases m with
  | none => exact absurd rfl h
  | utf8 => rfl
  | utf16Big => rfl
  | utf16Little => rfl

theorem detect_encode (t : Text) : Mark.detect (Utf8.encode t) = (unmarked t).2 := by
  have hdetect : Mark.detect (Utf8.encode t) =
      if Mark.utf8.bytes.isPrefixOf (Utf8.encode t) then .utf8 else .none := by
    have hbig : Mark.utf16Big.bytes.isPrefixOf (Utf8.encode t) = false :=
      isPrefixOf_encode_of_lead rfl (by decide) _ t
    have hlittle : Mark.utf16Little.bytes.isPrefixOf (Utf8.encode t) = false :=
      isPrefixOf_encode_of_lead rfl (by decide) _ t
    simp only [Mark.detect, List.find?_cons, hbig, hlittle, List.find?_nil]
    cases Mark.utf8.bytes.isPrefixOf (Utf8.encode t) <;> rfl
  rw [hdetect]
  cases t with
  | nil => rfl
  | cons c t =>
    rw [unmarked]
    by_cases hc : c = '\uFEFF'
    · subst hc
      rw [if_pos rfl]
      rfl
    · rw [if_neg hc, if_neg]
      rw [List.isPrefixOf_iff_prefix]
      rintro ⟨rest, hrest⟩
      obtain ⟨u, hu, -⟩ := exists_of_encode_eq hrest.symm
      exact hc (List.cons.inj hu).1

theorem decode_utf8 (t : Text) : decode (Mark.utf8.bytes ++ Utf8.encode t) = (t, .utf8) := by
  simp only [decode, detect_append .utf8 (by decide)]
  rw [Mark.length, List.drop_left, Utf8.decode_encode]

/-- What is written without a mark is read back, but for a first U+FEFF. -/
theorem decode_unmarked (t : Text) : decode (Utf8.encode t) = unmarked t := by
  cases t with
  | nil => rfl
  | cons c t =>
    by_cases hc : c = '\uFEFF'
    · subst hc
      exact decode_utf8 t
    · have hmark : Mark.detect (Utf8.encode (c :: t)) = .none := by
        rw [detect_encode, unmarked, if_neg hc]
      simp only [decode, hmark]
      rw [show Mark.none.length = 0 from rfl, List.drop_zero, Utf8.decode_encode, unmarked,
        if_neg hc]

theorem decode_utf16Big (t : Text) (extra : Option UInt8) :
    decode (Mark.utf16Big.bytes ++ ((Utf16.encode t).flatMap bigBytes ++ extra.toList)) =
      (t, .utf16Big) := by
  simp only [decode, detect_append .utf16Big (by decide)]
  rw [Mark.length, List.drop_left, units_bigBytes, Utf16.decode_encode]

theorem decode_utf16Little (t : Text) (extra : Option UInt8) :
    decode (Mark.utf16Little.bytes ++ ((Utf16.encode t).flatMap littleBytes ++ extra.toList)) =
      (t, .utf16Little) := by
  simp only [decode, detect_append .utf16Little (by decide)]
  rw [Mark.length, List.drop_left, units_littleBytes, Utf16.decode_encode]

theorem decode_fileBytes (t : Text) (marked : Bool) :
    decode (fileBytes t marked) = if marked then (t, .utf8) else unmarked t := by
  cases marked with
  | false => exact decode_unmarked t
  | true => exact decode_utf8 t

/-- A text is read back from every encoding, with the mark that it was written behind; one byte too
many does not matter to units of two. Without a mark it is read back as it is, but for a first
U+FEFF, which is taken for the mark. And what the host on a file system hands to it is read back so,
whether a mark was asked for or not. -/
theorem decode_encoded (t : Text) :
    decode (Mark.utf8.bytes ++ Utf8.encode t) = (t, .utf8) ∧
      (∀ extra : Option UInt8,
        decode (Mark.utf16Big.bytes ++ ((Utf16.encode t).flatMap bigBytes ++ extra.toList)) =
          (t, .utf16Big)) ∧
      (∀ extra : Option UInt8,
        decode (Mark.utf16Little.bytes ++ ((Utf16.encode t).flatMap littleBytes ++ extra.toList)) =
          (t, .utf16Little)) ∧
      decode (Utf8.encode t) = unmarked t ∧
      ∀ (m : Type → Type) [Monad m] (files : FileSystem m) (cwd : Path)
        (print : Channel → Text → m Unit) (layout : Text → Text) (p : Path) (marked : Bool),
        ∃ bytes, (files.host cwd print layout).write p t marked =
            (do pure (FileSystem.outcome (.write p) (← files.write p bytes))) ∧
          decode bytes = if marked then (t, .utf8) else unmarked t := by
  refine ⟨decode_utf8 t, decode_utf16Big t, decode_utf16Little t, decode_unmarked t, ?_⟩
  intro m _ files cwd print layout p marked
  exact ⟨fileBytes t marked, rfl, decode_fileBytes t marked⟩

/-- A character beyond the basic plane, written as two halves with a byte too many. -/
example : decode [0xFF, 0xFE, 0x3D, 0xD8, 0x00, 0xDE, 0x41] = ("😀".toList, .utf16Little) := by
  decide

end BatchCompile
