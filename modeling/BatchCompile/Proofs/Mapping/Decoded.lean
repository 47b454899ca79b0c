import BatchCompile.Mapping.Lines
import BatchCompile.Proofs.Text.Pieces

/-!
# Decoded mappings

`Segment.decode?` reads mappings as a debugger does: generated lines between semicolons, segments
between commas, and in each segment four numbers to add to those before, of which the first starts
anew with every line. Of what `lineMappings` writes it makes one segment for each line, the origin of
that line (`decode_lineMappings`).
-/

namespace BatchCompile

/-! ## Numbers -/

namespace Vlq

theorem value_digit {n : Nat} (h : n < 64) : value? (digit n) = some n := by
  revert n
  decide +kernel

theorem natural_digits (n : Nat) (rest : Text) :
    natural? ((digits n).map digit ++ rest) = some (n, rest) := by
  induction n using Nat.strongRecOn with
  | ind n ih =>
    rw [digits]
    split
    · rename_i hn
      rw [List.map_singleton, List.singleton_append, natural?, value_digit (by omega)]
      simp only [if_pos hn]
    · rename_i hn
      have hlow : ¬32 + n % 32 < 32 := by omega
      have hvalue : 32 + n % 32 - 32 + 32 * (n / 32) = n := by omega
      rw [List.map_cons, List.cons_append, natural?, value_digit (by omega)]
      simp only [if_neg hlow, ih (n / 32) (by omega), Option.map_some, hvalue]

theorem unzigzag_zigzag (n : Int) : unzigzag (zigzag n) = n := by
  unfold unzigzag zigzag
  split <;> split <;> omega

theorem decode_encode (n : Int) (rest : Text) : decode? (encode n ++ rest) = some (n, rest) := by
  rw [decode?, encode, natural_digits, Option.map_some]
  exact congrArg (fun n => some (n, rest)) (unzigzag_zigzag n)

theorem digit_mem (n : Nat) : digit n ∈ alphabet := by
  unfold digit
  rw [List.getD_eq_getElem?_getD]
  cases h : alphabet[n]? with
  | none => decide +kernel
  | some c => exact List.mem_of_getElem? h

theorem mem_alphabet_of_mem_encode {n : Int} {c : Char} (h : c ∈ encode n) : c ∈ alphabet := by
  obtain ⟨d, -, rfl⟩ := List.mem_map.1 h
  exact digit_mem d

end Vlq

/-! ## Segments -/

/-- A place in a script and the place in a source that it comes from. -/
structure Segment where
  generatedColumn : Int
  source : Int
  line : Int
  column : Int
  deriving DecidableEq, Repr

namespace Segment

/-- The segment that a text describes by four differences to the one before. -/
def next? (previous : Segment) (t : Text) : Option Segment := do
  let (generatedColumn, t) ← Vlq.decode? t
  let (source, t) ← Vlq.decode? t
  let (line, t) ← Vlq.decode? t
  let (column, t) ← Vlq.decode? t
  if t = [] then
    some ⟨previous.generatedColumn + generatedColumn, previous.source + source,
      previous.line + line, previous.column + column⟩
  else none

def line? (previous : Segment) : List Text → Option (List Segment)
  | [] => some []
  | t :: rest => do
    let s ← previous.next? t
    let later ← s.line? rest
    some (s :: later)

/-- The segments of generated lines, one list for each; generated columns start anew with every
line. -/
def lines? (previous : Segment) : List Text → Option (List (List Segment))
  | [] => some []
  | t :: rest => do
    let here ← { previous with generatedColumn := 0 }.line? (if t = [] then [] else t.splitOn ',')
    let later ← (here.getLast?.getD previous).lines? rest
    some (here :: later)

def decode? (mappings : Text) : Option (List (List Segment)) :=
  lines? ⟨0, 0, 0, 0⟩ (mappings.splitOn ';')

end Segment

/-- The segment of a line that comes from the start of a source line. -/
def Origin.segment (o : Origin) : Segment :=
  ⟨0, o.source, o.line, 0⟩

/-! ## Mappings of lines -/

theorem mem_alphabet_of_mem_group {previous origin : Origin} {c : Char}
    (h : c ∈ previous.group origin) : c ∈ Vlq.alphabet := by
  simp only [Origin.group, List.mem_append] at h
  rcases h with ((h | h) | h) | h <;> exact Vlq.mem_alphabet_of_mem_encode h

theorem separators_notMem_group (previous origin : Origin) :
    ';' ∉ previous.group origin ∧ ',' ∉ previous.group origin :=
  ⟨fun h => absurd (mem_alphabet_of_mem_group h) (by decide +kernel),
    fun h => absurd (mem_alphabet_of_mem_group h) (by decide +kernel)⟩

theorem next_group (previous origin : Origin) :
    previous.segment.next? (previous.group origin) = some origin.segment := by
  have hend := Vlq.decode_encode 0 []
  rw [List.append_nil] at hend
  unfold Segment.next? Origin.group
  simp only [List.append_assoc, Vlq.decode_encode, hend, Option.bind_eq_bind, Option.bind_some,
    ↓reduceIte, Origin.segment, Option.some.injEq, Segment.mk.injEq]
  omega

theorem group_ne_nil (previous origin : Origin) : previous.group origin ≠ [] := by
  intro h
  have := next_group previous origin
  rw [h] at this
  cases this

theorem lines_groupsAfter (previous : Origin) (origins : List Origin) :
    previous.segment.lines? (groupsAfter previous origins) =
      some (origins.map fun o => [o.segment]) := by
  induction origins generalizing previous with
  | nil => rfl
  | cons origin origins ih =>
    have hline : { previous.segment with generatedColumn := 0 }.line? [previous.group origin] =
        some [origin.segment] := by
      rw [Segment.line?, show { previous.segment with generatedColumn := 0 } = previous.segment
        from rfl, next_group]
      rfl
    rw [groupsAfter, Segment.lines?, if_neg (group_ne_nil _ _),
      List.splitOn_eq_singleton (separators_notMem_group _ _).2, hline]
    simp only [Option.bind_eq_bind, Option.bind_some, List.getLast?_singleton, Option.getD_some, ih,
      List.map_cons]

theorem separator_notMem_groupsAfter {previous : Origin} {origins : List Origin} {t : Text}
    (h : t ∈ groupsAfter previous origins) : ';' ∉ t := by
  induction origins generalizing previous with
  | nil => cases h
  | cons origin origins ih =>
    rcases List.mem_cons.1 h with rfl | h
    · exact (separators_notMem_group _ _).1
    · exact ih h

/-- The mappings of lines are read as one segment for each line; those of no lines, as one line
without segments. -/
theorem decode_lineMappings (origins : List Origin) :
    Segment.decode? (lineMappings origins) =
      some (if origins = [] then [[]] else origins.map fun o => [o.segment]) := by
  unfold Segment.decode? lineMappings
  cases origins with
  | nil => rfl
  | cons origin origins =>
    have hne : groupsAfter ⟨0, 0⟩ (origin :: origins) ≠ [] := List.cons_ne_nil _ _
    rw [Text.splitOn_join hne fun t => separator_notMem_groupsAfter, if_neg (List.cons_ne_nil _ _)]
    exact lines_groupsAfter ⟨0, 0⟩ (origin :: origins)

theorem Origin.segment_inj {o o' : Origin} : o.segment = o'.segment ↔ o = o' := by
  cases o
  cases o'
  simp only [Origin.segment, Segment.mk.injEq, Origin.mk.injEq, Int.ofNat_inj, true_and, and_true]

theorem exists_decode_lineMappings (origins : List Origin) :
    ∃ segments, Segment.decode? (lineMappings origins) = some segments ∧
      segments.flatten.length = origins.length ∧
      ∀ (g : Nat) (o : Origin), segments[g]? = some [o.segment] ↔ origins[g]? = some o := by
  refine ⟨_, decode_lineMappings origins, ?_⟩
  by_cases h : origins = []
  · subst h
    refine ⟨rfl, fun g o => ?_⟩
    cases g <;> simp
  · rw [if_neg h]
    refine ⟨?_, fun g o => ?_⟩
    · simp [List.length_flatten, Function.comp_def, List.map_const']
    · simp [List.getElem?_map, Option.map_eq_some_iff, Origin.segment_inj]

/-! ## Groups

Mappings are groups between semicolons, and a group is numbers in a row (`Vlq.numbers?`). Those of
lines have four numbers each, and added up from group to group they are the origins of the lines
(`exists_differences`).
-/

namespace Vlq

theorem length_natural?_lt {t rest : Text} {n : Nat} (h : natural? t = some (n, rest)) :
    rest.length < t.length := by
  fun_induction natural? t generalizing n with
  | case1 => cases h
  | case2 => cases h
  | case3 c t d _ hd =>
    obtain ⟨rfl, rfl⟩ := Prod.mk.inj (Option.some.inj h)
    exact Nat.lt_succ_self _
  | case4 c t d _ hd ih =>
    obtain ⟨⟨high, after⟩, hhigh, he⟩ := Option.map_eq_some_iff.1 h
    obtain ⟨-, rfl⟩ := Prod.mk.inj he
    exact Nat.lt_succ_of_lt (ih hhigh)

theorem length_decode?_lt {t rest : Text} {v : Int} (h : decode? t = some (v, rest)) :
    rest.length < t.length := by
  obtain ⟨⟨n, after⟩, hn, he⟩ := Option.map_eq_some_iff.1 h
  obtain ⟨-, rfl⟩ := Prod.mk.inj he
  exact length_natural?_lt hn

/-- The numbers in a text, one after the other, with nothing left over. -/
def numbers? : Text → Option (List Int)
  | [] => some []
  | c :: t =>
    match _h : decode? (c :: t) with
    | none => none
    | some (v, rest) => (numbers? rest).map (v :: ·)
  termination_by t => t.length
  decreasing_by exact length_decode?_lt _h

theorem numbers?_encode_append (v : Int) (rest : Text) :
    numbers? (encode v ++ rest) = (numbers? rest).map (v :: ·) := by
  have hdecode := decode_encode v rest
  cases ht : encode v ++ rest with
  | nil =>
    rw [ht] at hdecode
    cases hdecode
  | cons c t =>
    rw [ht] at hdecode
    rw [numbers?]
    split
    · rename_i hnone
      rw [hdecode] at hnone
      cases hnone
    · rename_i hsome
      obtain ⟨rfl, rfl⟩ := Prod.mk.inj (Option.some.inj (hdecode.symm.trans hsome))
      rfl

end Vlq

/-- The groups of some mappings; where nothing is written there is none. -/
def mappingGroups (mappings : Text) : List Text :=
  if mappings = [] then [] else mappings.splitOn ';'

theorem mappingGroups_lineMappings (origins : List Origin) :
    mappingGroups (lineMappings origins) = groupsAfter ⟨0, 0⟩ origins := by
  cases origins with
  | nil => rfl
  | cons o origins =>
    have hsplit : (lineMappings (o :: origins)).splitOn ';' = groupsAfter ⟨0, 0⟩ (o :: origins) :=
      Text.splitOn_join (List.cons_ne_nil _ _) fun t => separator_notMem_groupsAfter
    have hne : lineMappings (o :: origins) ≠ [] := by
      intro hnil
      rw [hnil] at hsplit
      exact group_ne_nil _ _ (List.cons.inj hsplit).1.symm
    rw [mappingGroups, if_neg hne, hsplit]

theorem length_groupsAfter (previous : Origin) (origins : List Origin) :
    (groupsAfter previous origins).length = origins.length := by
  induction origins generalizing previous with
  | nil => rfl
  | cons o origins ih => rw [groupsAfter, List.length_cons, ih, List.length_cons]

theorem numbers?_group (previous o : Origin) : Vlq.numbers? (previous.group o) =
    some [0, (o.source : Int) - previous.source, (o.line : Int) - previous.line, 0] := by
  have hend : Vlq.numbers? (Vlq.encode 0) = some [0] := by
    have := Vlq.numbers?_encode_append 0 []
    rwa [List.append_nil, Vlq.numbers?] at this
  rw [Origin.group, List.append_assoc, List.append_assoc, Vlq.numbers?_encode_append,
    Vlq.numbers?_encode_append, Vlq.numbers?_encode_append, hend]
  rfl

/-- Added up, the differences in the groups are the origins. -/
theorem exists_differences (previous : Origin) (origins : List Origin) :
    ∃ differences : List (Int × Int),
      (groupsAfter previous origins).map Vlq.numbers? =
        differences.map (fun d => some [0, d.1, d.2, 0]) ∧
      differences.scanl (fun p d => (p.1 + d.1, p.2 + d.2))
          ((previous.source : Int), (previous.line : Int)) =
        (previous :: origins).map fun o => ((o.source : Int), (o.line : Int)) := by
  induction origins generalizing previous with
  | nil => exact ⟨[], rfl, rfl⟩
  | cons o origins ih =>
    obtain ⟨differences, hgroups, hsums⟩ := ih o
    refine ⟨((o.source : Int) - previous.source, (o.line : Int) - previous.line) :: differences,
      ?_, ?_⟩
    · rw [groupsAfter, List.map_cons, List.map_cons, numbers?_group, hgroups]
    · have hsource : (previous.source : Int) + (o.source - previous.source) = o.source := by omega
      have hline : (previous.line : Int) + (o.line - previous.line) = o.line := by omega
      rw [List.scanl_cons, hsource, hline, hsums]
      rfl

end BatchCompile
