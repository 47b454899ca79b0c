import BatchCompile.Proofs.Path.Endings
import BatchCompile.Proofs.Placement.Layout

/-!
# What a base path accepts

A base path is compared as text with the way of a file from the working directory. The slash at its
end makes that a comparison by segments: below a base path that leads down, a file is accepted
exactly if it lies below the directory that the base path names (`accepts_iff_below`). A base path
that is written out and normalized to `.` accepts no file, as no way starts with `./`
(`accepts_nothing_below_self`).
-/

namespace BatchCompile

namespace Path

/-! ## Ways that lead down -/

theorem exists_normalize_down {p : Path} (hroot : isRooted p = false) (hfree : DriveFree p)
    (hup : ((normalize p).splitOn '/').head? ≠ some up) :
    ∃ us, (∀ u ∈ us, Ordinary u) ∧ normalize p = Parts.text ⟨.here, us⟩ ∧
      ∀ place, land place p = place ++ us := by
  have hhead : (forward p).head? ≠ some '/' := by
    intro h
    obtain ⟨t, ht⟩ := FromTop.forward_eq h
    rw [isRooted, ht] at hroot
    cases hroot
  obtain ⟨k, us, hus, hn, hsettle⟩ := exists_normalize_here hhead hfree
  cases k with
  | zero =>
    refine ⟨us, hus, hn, fun place => ?_⟩
    rw [land_of_here place hhead hfree.isDrive_forward, ← hsettle]
    exact settle_ordinary place hus
  | succ k =>
    have hslash : ∀ s ∈ ups (k + 1) ++ us, '/' ∉ s := by
      intro s hs
      rcases List.mem_append.1 hs with hs | hs
      · rw [List.eq_of_mem_replicate hs]
        exact isSegment_up.slash
      · exact (hus s hs).slash
    have hne : ups (k + 1) ++ us ≠ [] := by simp [ups]
    rw [hn, Parts.text, if_neg fun h => hne h.2] at hup
    refine absurd ?_ hup
    rw [Root.text, List.nil_append, Text.splitOn_join hne hslash, ups, List.replicate_succ]
    rfl

section

variable {us : List Text} (h : ∀ u ∈ us, Ordinary u)

include h

theorem text_here_eq_self : Parts.text ⟨.here, us⟩ = self ↔ us = [] := by
  constructor
  · intro he
    by_contra hne
    rw [Parts.text, if_neg fun hnil => hne hnil.2] at he
    have hsegments : segmentsOf (Text.join ['/'] us) = segmentsOf self := congrArg segmentsOf he
    rw [segmentsOf_join (isSegment_all h)] at hsegments
    subst hsegments
    exact (h self (by decide)).ne_self rfl
  · rintro rfl
    rfl

theorem getLast?_text_here : (Parts.text ⟨.here, us⟩).getLast? ≠ some '/' := by
  unfold Parts.text
  split
  · decide
  · rename_i hne
    cases us using List.reverseRecOn with
    | nil => exact absurd ⟨rfl, rfl⟩ hne
    | append_singleton us u =>
      have hu := h u (by simp)
      obtain ⟨front, hfront⟩ := suffix_join_concat ['/'] us u
      intro hlast
      rw [Root.text, List.nil_append, ← hfront, List.getLast?_append,
        List.getLast?_eq_some_getLast hu.ne_nil, Option.some_or] at hlast
      exact hu.slash (Option.some.inj hlast ▸ List.getLast_mem hu.ne_nil)

end

theorem below_atTop_iff {xs ys : List Text} (hx : ∀ s ∈ xs, IsSegment s)
    (hy : ∀ s ∈ ys, IsSegment s) :
    Below (atTop xs) (atTop ys) ↔ ∃ rs, rs ≠ [] ∧ ys = xs ++ rs := by
  simp only [Below, of_atTop hx, of_atTop hy, Parts.mk.injEq, true_and]

end Path

open BatchCompile.Path

/-! ## Acceptance -/

/-- A base path that leads down takes its segments off the front of a way, if it has any. -/
theorem takesOff_asBase {b : Path} {us bs : List Text} (hn : normalize b = Parts.text ⟨.here, us⟩)
    (hus : ∀ u ∈ us, Ordinary u) (hbs : ∀ s ∈ bs, Ordinary s) :
    TakesOff (some (Configuration.asBase b)) bs ↔ us ≠ [] ∧ bs = us := by
  have hbase : Configuration.asBase b = Parts.text ⟨.here, us⟩ ++ ['/'] := by
    simp only [Configuration.asBase, hn]
    rw [if_neg (getLast?_text_here hus)]
  rw [TakesOff, hbase, List.append_left_inj]
  constructor
  · rintro ⟨hne, he⟩
    have hus₀ : us ≠ [] := by
      rintro rfl
      -- the base path is `.`, and that is no segment of a way that leads down
      have hsegments : segmentsOf self = segmentsOf (Text.join ['/'] bs) := congrArg segmentsOf he
      rw [segmentsOf_join (isSegment_all hbs)] at hsegments
      exact (hbs self (hsegments ▸ by decide)).ne_self rfl
    rw [Parts.text, if_neg fun hnil => hus₀ hnil.2, Root.text, List.nil_append] at he
    have hsegments := congrArg segmentsOf he
    rw [segmentsOf_join (isSegment_all hus), segmentsOf_join (isSegment_all hbs)] at hsegments
    exact ⟨hus₀, hsegments.symm⟩
  · rintro ⟨hne, rfl⟩
    rw [Parts.text, if_neg fun hnil => hne hnil.2]
    exact ⟨hne, rfl⟩

/-- A file below the working directory is accepted if its way has the base path at its front and
goes on from there. -/
theorem exists_destination_iff {cwd directory : Path} (hc : FromTop cwd) (hd : DriveFree directory)
    {c : Configuration} (h : Directed c directory) {name : Path} {ss : List Text} (hss : ss ≠ [])
    (ho : ∀ s ∈ ss, Ordinary s ∧ isDrive s = false)
    (hn : resolve cwd [name] = atTop (land [] cwd ++ ss)) :
    (∃ d, destination cwd c name = .ok d) ↔
      ∃ bs rs, ss = bs ++ rs ∧ rs ≠ [] ∧ TakesOff c.basePath bs := by
  simp only [destination_eq_ok_iff hc hd h hss ho hn]
  constructor
  · rintro ⟨d, bs, rs, he, hrs, htakes, -⟩
    exact ⟨bs, rs, he, hrs, htakes⟩
  · rintro ⟨bs, rs, he, hrs, htakes⟩
    exact ⟨_, bs, rs, he, hrs, htakes, rfl⟩

/-- Below a base path that leads down from the working directory, a file is accepted exactly if it
lies below the directory that the base path names. A base path that is written out and names the
working directory itself is the exception: it accepts nothing. -/
theorem accepts_iff_below (cwd directory b name : Path) (options : Options) (hc : FromTop cwd)
    (hne : directory ≠ []) (hd : DriveFree directory)
    (hs : (Configuration.resolve cwd options (some directory)).singleOutput = false)
    (hb : options.basePath = some b) (hroot : isRooted b = false) (hfree : DriveFree b)
    (hup : ((normalize b).splitOn '/').head? ≠ some up) (hin : Inside cwd name) :
    (∃ d, destination cwd (Configuration.resolve cwd options (some directory)) name = .ok d) ↔
      Below (resolve cwd [b]) (resolve cwd [name]) ∧ (normalize b = self → b = []) := by
  have hplace := ordinary_land_top hc
  obtain ⟨ss, hss, ho, hr⟩ := hin.segments hc
  obtain ⟨us, hus, hn, hland⟩ := exists_normalize_down hroot hfree hup
  have hss' : ∀ s ∈ ss, Ordinary s := fun s hm => (ho s hm).1
  have hbase : resolve cwd [b] = atTop (land [] cwd ++ us) := by
    rw [resolve_eq hc (by simpa using hfree.isDrive_forward), List.foldl_cons, List.foldl_nil, hland]
  have hbelow : Below (resolve cwd [b]) (resolve cwd [name]) ↔ ∃ rs, rs ≠ [] ∧ ss = us ++ rs := by
    rw [hbase, hr, below_atTop_iff (isSegment_all (List.forall_mem_append.2 ⟨hplace, hus⟩))
      (isSegment_all (List.forall_mem_append.2 ⟨hplace, hss'⟩))]
    simp only [List.append_assoc, List.append_cancel_left_eq]
  have hbasePath : (Configuration.resolve cwd options (some directory)).basePath =
      (Configuration.nonempty (some b)).map Configuration.asBase := hb ▸ rfl
  rw [exists_destination_iff hc hd (directed_resolve hne hs) hss ho hr, hbasePath, hbelow, hn,
    text_here_eq_self hus]
  by_cases hempty : b = []
  · subst hempty
    have hus₀ : us = [] := (text_here_eq_self hus).1 hn.symm
    subst hus₀
    constructor
    · rintro ⟨bs, rs, he, hrs, hbs⟩
      obtain rfl : bs = [] := hbs
      exact ⟨⟨rs, hrs, he⟩, fun _ => rfl⟩
    · rintro ⟨⟨rs, hrs, he⟩, -⟩
      exact ⟨[], rs, he, hrs, rfl⟩
  · have hgiven : Configuration.nonempty (some b) = some b := by
      simp [Configuration.nonempty, hempty]
    rw [hgiven, Option.map_some]
    constructor
    · rintro ⟨bs, rs, he, hrs, htakes⟩
      have hbs : ∀ s ∈ bs, Ordinary s := fun s hm => hss' s (he ▸ List.mem_append_left rs hm)
      obtain ⟨hus₀, rfl⟩ := (takesOff_asBase hn hus hbs).1 htakes
      exact ⟨⟨rs, hrs, he⟩, fun h => absurd h hus₀⟩
    · rintro ⟨⟨rs, hrs, rfl⟩, hself⟩
      exact ⟨us, rs, rfl, hrs, (takesOff_asBase hn hus hus).2 ⟨fun h => hempty (hself h), rfl⟩⟩

/-- A sibling whose name goes on from that of the base path is not below it. -/
theorem accepts_iff_below_sibling :
    let c := Configuration.resolve "/work".toList
      { Options.unset with basePath := some "./x/../src".toList } (some "dist".toList)
    (∃ d, destination "/work".toList c "src/a.js".toList = .ok d) ∧
      ¬∃ d, destination "/work".toList c "srcs/a.js".toList = .ok d := by
  intro c
  have haccepts := fun name => accepts_iff_below "/work".toList "dist".toList "./x/../src".toList name
    { Options.unset with basePath := some "./x/../src".toList } (by decide) (by decide) (by decide)
    (by decide) rfl (by decide) (by decide) (by decide)
  constructor
  · refine (haccepts _ ⟨⟨["src".toList, "a.js".toList], by decide, by decide⟩, by decide⟩).2 ⟨?_, ?_⟩
    · exact ⟨["a.js".toList], by decide, by decide⟩
    · decide
  · intro hok
    obtain ⟨⟨ss, -, hss⟩, -⟩ :=
      (haccepts _ ⟨⟨["srcs".toList, "a.js".toList], by decide, by decide⟩, by decide⟩).1 hok
    have hprefix : (Parts.of (resolve "/work".toList ["./x/../src".toList])).segments <+:
        (Parts.of (resolve "/work".toList ["srcs/a.js".toList])).segments :=
      ⟨ss, (congrArg Parts.segments hss).symm⟩
    exact absurd hprefix (by decide)

/-- The base path `.` names the working directory, but no file below it is accepted. -/
theorem accepts_nothing_below_self :
    let c := Configuration.resolve "/work".toList { Options.unset with basePath := some ".".toList }
      (some "dist".toList)
    Below (resolve "/work".toList [".".toList]) (resolve "/work".toList ["a.js".toList]) ∧
      ¬∃ d, destination "/work".toList c "a.js".toList = .ok d := by
  refine ⟨⟨["a.js".toList], by decide, by decide⟩, ?_⟩
  rintro ⟨d, hd⟩
  have hok := (congrArg Except.isOk hd).trans (rfl : _ = true)
  exact absurd hok (by decide)

end BatchCompile
