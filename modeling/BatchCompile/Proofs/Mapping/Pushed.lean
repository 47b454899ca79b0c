import BatchCompile.Proofs.Mapping.Decoded
import BatchCompile.Proofs.Mapping.Words
import Mathlib.Data.List.Induction

/-!
# Mappings that are pushed line by line

Mappings can be written while lines come in, from nothing but the last origin, in words of 64 bits
(`PushAll`). What has been written after some lines is what `lineMappings` says (`Holds`), and it is
read back as the lines that were pushed (`pushed_read_back`).
-/

namespace BatchCompile

/-! ## Pushing -/

/-- Mappings while lines are pushed: the text so far, the number of lines, and the last origin. -/
structure Pushing where
  text : Text
  lines : Nat
  source : Int64
  line : Int64

def Pushing.start : Pushing :=
  ⟨[], 0, 0, 0⟩

/-- One more line is pushed: a group is written, behind a semicolon unless it is the first one. -/
inductive Push (s : Pushing) (o : Origin) : Pushing → Prop
  | group {generated source line column : Text} (hgenerated : Vlq.Writes (Vlq.zigzagWord 0) generated)
    (hsource : Vlq.Writes (Vlq.zigzagWord (Int64.ofNat o.source - s.source)) source)
    (hline : Vlq.Writes (Vlq.zigzagWord (Int64.ofNat o.line - s.line)) line)
    (hcolumn : Vlq.Writes (Vlq.zigzagWord 0) column) :
    Push s o ⟨s.text ++ (if s.lines > 0 then [';'] else []) ++ generated ++ source ++ line ++ column,
      s.lines + 1, Int64.ofNat o.source, Int64.ofNat o.line⟩

inductive PushAll : Pushing → List Origin → Pushing → Prop
  | none {s : Pushing} : PushAll s [] s
  | more {s s' s'' : Pushing} {o : Origin} {os : List Origin} (first : Push s o s')
    (later : PushAll s' os s'') : PushAll s (o :: os) s''

/-- An origin whose numbers fit into words, and whose differences to others do. -/
def Origin.Fits (o : Origin) : Prop :=
  o.source < 2 ^ 62 ∧ o.line < 2 ^ 62

/-- The origin of the last line, or that of the first line there could be. -/
def lastOrigin (origins : List Origin) : Origin :=
  origins.getLast?.getD ⟨0, 0⟩

structure Holds (origins : List Origin) (s : Pushing) : Prop where
  text : s.text = lineMappings origins
  lines : s.lines = origins.length
  source : s.source.toInt = (lastOrigin origins).source
  line : s.line.toInt = (lastOrigin origins).line

theorem holds_start : Holds [] .start :=
  ⟨rfl, rfl, rfl, rfl⟩

theorem groupsAfter_concat (previous : Origin) (origins : List Origin) (o : Origin) :
    groupsAfter previous (origins ++ [o]) =
      groupsAfter previous origins ++ [(origins.getLast?.getD previous).group o] := by
  induction origins generalizing previous with
  | nil => rfl
  | cons origin origins ih =>
    rw [List.cons_append, groupsAfter, ih, groupsAfter, List.cons_append, List.getLast?_cons]
    rfl

theorem lineMappings_concat (origins : List Origin) (o : Origin) :
    lineMappings (origins ++ [o]) =
      lineMappings origins ++ (if origins.length > 0 then [';'] else []) ++
        (lastOrigin origins).group o := by
  rw [lineMappings, groupsAfter_concat, lineMappings]
  cases origins with
  | nil =>
    rw [groupsAfter, List.nil_append, Text.join_singleton]
    rfl
  | cons origin origins =>
    have hne : groupsAfter ⟨0, 0⟩ (origin :: origins) ≠ [] := List.cons_ne_nil _ _
    rw [Text.join_append _ hne (List.cons_ne_nil _ _), Text.join_singleton]
    rfl

theorem fits_lastOrigin {origins : List Origin} (h : ∀ o ∈ origins, o.Fits) :
    (lastOrigin origins).Fits := by
  unfold lastOrigin
  cases hlast : origins.getLast? with
  | none => exact ⟨by decide, by decide⟩
  | some o => exact h o (List.mem_of_getLast? hlast)

theorem writes_difference {n previous : Nat} {w : Int64} (hn : n < 2 ^ 62)
    (hprevious : previous < 2 ^ 62) (hw : w.toInt = previous) {t : Text} :
    Vlq.Writes (Vlq.zigzagWord (Int64.ofNat n - w)) t ↔ t = Vlq.encode ((n : Int) - previous) := by
  have hword : (Int64.ofNat n).toInt = n := Int64.toInt_ofNat_of_lt (by omega)
  refine Vlq.writes_iff ?_ (by unfold Vlq.Fits; omega)
  rw [Int64.toInt_sub, hword, hw, Int.bmod_eq_of_le] <;> omega

section

variable {origins : List Origin} {s s' : Pushing} {o : Origin} (h : Holds origins s)
  (hf : ∀ o ∈ origins, o.Fits) (ho : o.Fits)

include h hf ho

/-- One line more: there is one way to push it, and it writes the group of that line. -/
theorem push_iff : Push s o s' ↔ s' = ⟨lineMappings (origins ++ [o]), s.lines + 1,
    Int64.ofNat o.source, Int64.ofNat o.line⟩ := by
  have hlast := fits_lastOrigin hf
  have hzero : ∀ {t : Text}, Vlq.Writes (Vlq.zigzagWord 0) t ↔ t = Vlq.encode 0 :=
    Vlq.writes_iff rfl (by unfold Vlq.Fits; decide)
  have hsource := fun {t} => writes_difference (t := t) ho.1 hlast.1 h.source
  have hline := fun {t} => writes_difference (t := t) ho.2 hlast.2 h.line
  have htext : lineMappings (origins ++ [o]) = s.text ++ (if s.lines > 0 then [';'] else []) ++
      Vlq.encode 0 ++ Vlq.encode ((o.source : Int) - (lastOrigin origins).source) ++
      Vlq.encode ((o.line : Int) - (lastOrigin origins).line) ++ Vlq.encode 0 := by
    rw [lineMappings_concat, Origin.group, h.text, h.lines]
    simp only [List.append_assoc]
  rw [htext]
  constructor
  · intro hpush
    cases hpush with
    | group h₁ h₂ h₃ h₄ => rw [hzero.1 h₁, hsource.1 h₂, hline.1 h₃, hzero.1 h₄]
  · rintro rfl
    exact .group (hzero.2 rfl) (hsource.2 rfl) (hline.2 rfl) (hzero.2 rfl)

theorem Push.holds (hpush : Push s o s') : Holds (origins ++ [o]) s' := by
  obtain rfl := (push_iff h hf ho).1 hpush
  have hlast : lastOrigin (origins ++ [o]) = o := by simp [lastOrigin]
  refine ⟨rfl, by simp [h.lines], ?_, ?_⟩
  · rw [hlast]
    exact Int64.toInt_ofNat_of_lt (by have := ho.1; omega)
  · rw [hlast]
    exact Int64.toInt_ofNat_of_lt (by have := ho.2; omega)

end

theorem pushAll_holds {origins more : List Origin} {s : Pushing} (h : Holds origins s)
    (hf : ∀ o ∈ origins ++ more, o.Fits) :
    (∃ s', PushAll s more s') ∧ ∀ s', PushAll s more s' → Holds (origins ++ more) s' := by
  induction more generalizing origins s with
  | nil =>
    refine ⟨⟨s, .none⟩, fun s' hs' => ?_⟩
    cases hs'
    rwa [List.append_nil]
  | cons o more ih =>
    obtain ⟨horigins, hmore⟩ := List.forall_mem_append.1 hf
    have ho := hmore o List.mem_cons_self
    rw [← List.singleton_append, ← List.append_assoc] at hf ⊢
    constructor
    · have hfirst := (push_iff h horigins ho).2 rfl
      obtain ⟨⟨s', hs'⟩, -⟩ := ih (hfirst.holds h horigins ho) hf
      exact ⟨s', .more hfirst hs'⟩
    · intro s' hs'
      cases hs' with
      | more hfirst hlater => exact (ih (hfirst.holds h horigins ho) hf).2 s' hlater

/-! ## Reading back -/

/-- Lines that fit can be pushed one after the other, in any order and in one way. The text is empty
if there is none, and else has one group for each line, of four numbers and nothing else: the first
and the last are zero, and those between add up to the origins of the lines. Each number that fits is
read as it was written, whatever follows it. -/
theorem pushed_read_back (origins : List Origin) (h : ∀ o ∈ origins, o.Fits) :
    (∃ s, PushAll .start origins s) ∧
      (∀ s, PushAll .start origins s → s.text = lineMappings origins) ∧
      (lineMappings origins = [] ↔ origins = []) ∧
      (mappingGroups (lineMappings origins)).length = origins.length ∧
      (∃ differences : List (Int × Int),
        (mappingGroups (lineMappings origins)).map Vlq.numbers? =
          differences.map (fun d => some [0, d.1, d.2, 0]) ∧
        differences.scanl (fun p d => (p.1 + d.1, p.2 + d.2)) (0, 0) =
          (0, 0) :: origins.map fun o => ((o.source : Int), (o.line : Int))) ∧
      ∀ v, Vlq.Fits v →
        (∀ t, Vlq.Writes (Vlq.zigzagWord (Int64.ofInt v)) t ↔ t = Vlq.encode v) ∧
          ∀ rest, Vlq.decode? (Vlq.encode v ++ rest) = some (v, rest) := by
  obtain ⟨hpushed, hholds⟩ := pushAll_holds holds_start h
  have hgroups := mappingGroups_lineMappings origins
  refine ⟨hpushed, fun s hs => (hholds s hs).text, ?_, ?_, ?_, fun v hv => ⟨fun t => ?_, ?_⟩⟩
  · refine ⟨fun hnil => ?_, fun hnil => by rw [hnil]; rfl⟩
    rw [hnil] at hgroups
    exact List.eq_nil_of_length_eq_zero ((length_groupsAfter ⟨0, 0⟩ origins).symm.trans
      (congrArg List.length hgroups.symm))
  · rw [hgroups, length_groupsAfter]
  · rw [hgroups]
    exact exists_differences ⟨0, 0⟩ origins
  · refine Vlq.writes_iff (Int64.toInt_ofInt_of_le ?_ ?_) hv <;> unfold Vlq.Fits at hv <;> omega
  · exact Vlq.decode_encode v

/-- The greatest numbers that fit, up and down again. -/
theorem pushed_read_back_greatest :
    let far : Nat := 2 ^ 62 - 1
    let origins : List Origin := [⟨0, far⟩, ⟨far, 0⟩, ⟨0, 7⟩]
    (∀ o ∈ origins, o.Fits) ∧ (∃ s, PushAll .start origins s) ∧
      (mappingGroups (lineMappings origins)).length = 3 ∧ Vlq.Fits (-(far : Int)) ∧
      Vlq.decode? (Vlq.encode (-(far : Int)) ++ ['A']) = some (-(far : Int), ['A']) := by
  intro far origins
  have hfits : ∀ o ∈ origins, o.Fits := by
    simp only [origins, far, List.forall_mem_cons, Origin.Fits]
    decide
  have hfar : Vlq.Fits (-(far : Int)) := by
    unfold Vlq.Fits
    omega
  obtain ⟨hpushed, -, -, hlength, -, hnumbers⟩ := pushed_read_back origins hfits
  exact ⟨hfits, hpushed, hlength, hfar, (hnumbers _ hfar).2 _⟩

end BatchCompile
