import BatchCompile.Hosts.Memory
import BatchCompile.Proofs.Path.Onward

/-!
# Relative paths

The relative path from one place to another goes up to the last place that lies above both, and down
from there (`Leads`). Joined with the place where it starts, it is the place where it goes
(`combine_wayTo`).
-/

namespace BatchCompile

namespace Path

/-- Backslashes do not make a drive, and do not hide one. -/
theorem isDrive_forward (p : Path) : isDrive (forward p) = isDrive p := by
  match p with
  | [] => rfl
  | [c] =>
    rw [forward, List.map_singleton]
    rfl
  | letter :: colon :: rest =>
    have hletter : (if letter = '\\' then '/' else letter).isAlpha = letter.isAlpha := by
      split
      · subst letter
        rfl
      · rfl
    by_cases hd : colon = ':'
    · subst hd
      exact hletter
    · have hcolon : ¬(if colon = '\\' then '/' else colon) = ':' := by
        split
        · decide
        · exact hd
      simp [forward, isDrive, hd, hcolon]

/-- The longest front that two lists of segments have in common. -/
structure LongestFront (front xs ys : List Text) : Prop where
  left : front <+: xs
  right : front <+: ys
  longest : ∀ other, other <+: xs → other <+: ys → other <+: front

theorem prefix_take_sharedLength {other xs ys : List Text} (hx : other <+: xs) (hy : other <+: ys) :
    other <+: xs.take (sharedLength xs ys) := by
  induction xs generalizing other ys with
  | nil => simpa using hx
  | cons x xs ih =>
    cases other with
    | nil => exact List.nil_prefix
    | cons o other =>
      cases ys with
      | nil => simp at hy
      | cons y ys =>
        obtain ⟨rfl, hxs⟩ := List.cons_prefix_cons.1 hx
        obtain ⟨rfl, hys⟩ := List.cons_prefix_cons.1 hy
        rw [sharedLength, if_pos rfl, List.take_succ_cons, List.cons_prefix_cons]
        exact ⟨rfl, ih hxs hys⟩

theorem longestFront_take (xs ys : List Text) :
    LongestFront (xs.take (sharedLength xs ys)) xs ys where
  left := List.take_prefix _ _
  right := by
    rw [take_sharedLength]
    exact List.take_prefix _ _
  longest _ := prefix_take_sharedLength

/-- A text that leads from one place to another one: as many steps up as the first has segments
behind the longest front that the two share, and then the segments of the other behind it. -/
def Leads (t : Text) (xs ys : List Text) : Prop :=
  ∃ front left right, LongestFront front xs ys ∧ xs = front ++ left ∧ ys = front ++ right ∧
    t.splitOn '/' = ups left.length ++ right ∧ ∀ s ∈ right, Ordinary s

theorem way_ne_nil {xs ys : List Text} (h : xs ≠ ys) : way xs ys ≠ [] := by
  intro hnil
  obtain ⟨hups, hdown⟩ := List.append_eq_nil_iff.1 hnil
  have hleft : xs.drop (sharedLength xs ys) = [] := by
    rw [List.drop_eq_nil_iff]
    have := congrArg List.length hups
    simp at this
    omega
  apply h
  rw [← List.take_append_drop (sharedLength xs ys) xs, hleft, take_sharedLength,
    ← hdown, List.take_append_drop]

theorem leads_way {xs ys : List Text} (hy : ∀ s ∈ ys, Ordinary s) (h : xs ≠ ys) :
    Leads (Text.join ['/'] (way xs ys)) xs ys := by
  let k := sharedLength xs ys
  have hslash : ∀ s ∈ way xs ys, '/' ∉ s := fun s hs =>
    (mem_way hs).elim (fun e => e ▸ isSegment_up.slash) fun hm => (hy s hm).slash
  refine ⟨xs.take k, xs.drop k, ys.drop k, longestFront_take xs ys,
    (List.take_append_drop k xs).symm, ?_, ?_, fun s hs => hy s (List.mem_of_mem_drop hs)⟩
  · rw [take_sharedLength, List.take_append_drop]
  · rw [Text.splitOn_join (way_ne_nil h) hslash, way, ups, List.length_drop]

theorem Leads.ne_nil {t : Text} {xs ys : List Text} (h : Leads t xs ys) : t ≠ [] := by
  rintro rfl
  obtain ⟨front, left, right, -, -, -, hsplit, hright⟩ := h
  have hmem : [] ∈ ups left.length ++ right := hsplit ▸ List.mem_singleton_self []
  rcases List.mem_append.1 hmem with hup | hdown
  · cases List.eq_of_mem_replicate hup
  · exact (hright [] hdown).ne_nil rfl

end Path

open BatchCompile.Path

/-- The relative path between two places, neither of them named by a drive, leads from one to the
other: joined with the first it is the second, it is empty exactly if they are one place, and else it
goes up no further than it must. -/
theorem combine_wayTo {m : Type → Type} (h : Host m) (hc : FromTop h.cwd) (start goal : Path)
    (hs : isDrive start = false) (hg : isDrive goal = false) :
    combine (h.absolute start) (h.wayTo start goal) = h.absolute goal ∧
      (h.wayTo start goal = [] ↔ h.absolute start = h.absolute goal) ∧
      (h.absolute start ≠ h.absolute goal →
        Leads (h.wayTo start goal) (stepsOf (h.absolute start)) (stepsOf (h.absolute goal))) := by
  have hplace := ordinary_land_top hc
  have hxs := ordinary_land hplace ((isDrive_forward start).trans hs)
  have hys := ordinary_land hplace ((isDrive_forward goal).trans hg)
  have hstart : h.absolute start = atTop (land (land [] h.cwd) start) :=
    resolve_eq hc (by simpa [isDrive_forward] using hs)
  have hgoal : h.absolute goal = atTop (land (land [] h.cwd) goal) :=
    resolve_eq hc (by simpa [isDrive_forward] using hg)
  have hway : h.wayTo start goal = relative (h.absolute start) (h.absolute goal) := rfl
  rw [hway, hstart, hgoal]
  generalize land (land [] h.cwd) start = xs at hxs
  generalize land (land [] h.cwd) goal = ys at hys
  by_cases he : xs = ys
  · subst he
    refine ⟨combine_relative hxs hys, ?_, fun hne => absurd rfl hne⟩
    rw [relative, if_pos rfl]
    exact iff_of_true rfl rfl
  · have hne : atTop xs ≠ atTop ys := fun e =>
      he (atTop_inj (isSegment_all hxs) (isSegment_all hys) e)
    have hleads : Leads (relative (atTop xs) (atTop ys)) xs ys := by
      rw [relative_atTop hxs hys he]
      exact leads_way hys he
    refine ⟨combine_relative hxs hys, iff_of_false hleads.ne_nil hne, fun _ => ?_⟩
    rw [stepsOf, stepsOf, of_atTop (isSegment_all hxs), of_atTop (isSegment_all hys)]
    exact hleads

/-- Two steps up, though the paths are spelled with more, and down again. -/
theorem combine_wayTo_beside :
    let h := Memory.host "/work".toList
    let start := "src/../lib\\x".toList
    let goal := "/work//src/./a.ts".toList
    h.absolute start ≠ h.absolute goal ∧ h.wayTo start goal = "../../src/a.ts".toList ∧
      combine (h.absolute start) (h.wayTo start goal) = h.absolute goal ∧
      Leads (h.wayTo start goal) (stepsOf (h.absolute start)) (stepsOf (h.absolute goal)) := by
  intro h start goal
  have hne : h.absolute start ≠ h.absolute goal := by decide
  obtain ⟨hcombine, -, hleads⟩ :=
    combine_wayTo h (by decide) start goal (by decide) (by decide)
  exact ⟨hne, by decide, hcombine, hleads hne⟩

end BatchCompile
