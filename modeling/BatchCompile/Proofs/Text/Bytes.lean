import BatchCompile.Proofs.Text.Pieces

/-!
# Texts in bytes

A place in a text may be given in bytes. Only where a character starts, or the text ends, can a text
be cut there (`fromByte?`, `upToByte?`), and that is so behind every front of it
(`fromByte?_append`). A pattern is found where the front before it ends (`byteOf?`).
-/

namespace BatchCompile.Text

/-! ## Lengths -/

@[simp] theorem byteLength_nil : byteLength [] = 0 := rfl

theorem byteLength_append (s t : Text) : byteLength (s ++ t) = byteLength s + byteLength t := by
  have key : ∀ (t : Text) (n : Nat), t.foldl (fun n c => n + c.utf8Size) n =
      n + byteLength t := by
    intro t
    induction t with
    | nil => intro n; rfl
    | cons c t ih =>
      intro n
      rw [byteLength, List.foldl_cons, List.foldl_cons, ih, ih, Nat.zero_add, Nat.add_assoc]
  rw [byteLength, List.foldl_append, key, ← byteLength]

theorem byteLength_cons (c : Char) (t : Text) :
    byteLength (c :: t) = c.utf8Size + byteLength t := by
  rw [← List.singleton_append, byteLength_append]
  simp [byteLength]

theorem byteLength_reverse (t : Text) : byteLength t.reverse = byteLength t := by
  induction t with
  | nil => rfl
  | cons c t ih =>
    rw [List.reverse_cons, byteLength_append, ih, Nat.add_comm, ← byteLength_append,
      List.singleton_append]

/-! ## Cuts -/

/-- The text from a byte on; nothing if no character starts there and the text does not end. -/
def fromByte? : Nat → Text → Option Text
  | 0, t => some t
  | _ + 1, [] => none
  | n + 1, c :: t => if c.utf8Size ≤ n + 1 then fromByte? (n + 1 - c.utf8Size) t else none

def upToByte? (n : Nat) (t : Text) : Option Text :=
  (fromByte? n t).map fun rest => t.take (t.length - rest.length)

theorem fromByte?_append (a b : Text) : fromByte? (byteLength a) (a ++ b) = some b := by
  induction a with
  | nil => cases b <;> rfl
  | cons c a ih =>
    obtain ⟨n, hn⟩ : ∃ n, byteLength (c :: a) = n + 1 := by
      refine Nat.exists_eq_succ_of_ne_zero ?_
      have := Char.utf8Size_pos c
      rw [byteLength_cons]
      omega
    have hrest : n + 1 - c.utf8Size = byteLength a := by
      rw [← hn, byteLength_cons]
      omega
    have hfits : c.utf8Size ≤ n + 1 := by
      rw [← hn, byteLength_cons]
      omega
    rw [hn, List.cons_append, fromByte?, if_pos hfits, hrest, ih]

theorem upToByte?_append (a b : Text) : upToByte? (byteLength a) (a ++ b) = some a := by
  rw [upToByte?, fromByte?_append, Option.map_some]
  simp

/-! ## Patterns -/

/-- The byte at which a pattern first stands. -/
def byteOf? (pattern t : Text) : Option Nat :=
  (cut? pattern t).map fun pieces => byteLength pieces.1

section

variable {pattern : Text}

theorem byteOf?_at_front {t : Text} (hne : t ≠ []) (h : pattern <+: t) :
    byteOf? pattern t = some 0 := by
  obtain ⟨rest, rfl⟩ := h
  cases ht : pattern ++ rest with
  | nil => exact absurd ht hne
  | cons c t => rw [byteOf?, cut?, List.isPrefixOf?_eq_some_iff_append_eq.2 ht]; rfl

theorem byteOf?_cons {c : Char} {t : Text} (h : ¬pattern <+: c :: t) :
    byteOf? pattern (c :: t) = (byteOf? pattern t).map (c.utf8Size + ·) := by
  rw [byteOf?, cut?, isPrefixOf?_eq_none.2 h, byteOf?, Option.map_map, Option.map_map]
  refine congrArg (Option.map · _) (funext fun pieces => ?_)
  exact byteLength_cons c pieces.1

theorem byteOf?_getD (c : Char) (t : Text) :
    (byteOf? [c] t).getD (byteLength t) = byteLength (t.takeWhile (· != c)) := by
  induction t with
  | nil => rfl
  | cons d t ih =>
    by_cases hd : d = c
    · subst hd
      have hprefix : [d] <+: d :: t := ⟨t, rfl⟩
      rw [byteOf?_at_front (List.cons_ne_nil _ _) hprefix]
      simp
    · have hprefix : ¬[c] <+: d :: t := fun hp => hd (List.cons_prefix_cons.1 hp).1.symm
      rw [byteOf?_cons hprefix, List.takeWhile_cons_of_pos (by simpa using hd), byteLength_cons,
        byteLength_cons, ← ih]
      cases byteOf? [c] t <;> rfl

end

end BatchCompile.Text
