import BatchCompile.Proofs.Path.Normal
import Mathlib.Data.List.Infix
import Mathlib.Logic.Function.Iterate

/-!
# Chains of parents

Whoever goes from a path to the directory it lies in, and so on, meets the ancestors of the path and
then nothing (`iterate_dirName`); there are hardly more of them than the path has characters
(`length_ancestors_le`). From a root, the ancestors are the paths through fewer and fewer of the
segments (`ancestors_through`). A normal form is its directory combined with its name, unless it
starts on a drive without a slash (`parents_exact`).
-/

namespace BatchCompile.Path

variable {p q : Path}

/-! ## Chains end -/

theorem ancestors_of_dirName_none (h : dirName p = none) : ancestors p = [] := by
  rw [ancestors]
  split
  · rfl
  · rename_i heq
    cases h.symm.trans heq

theorem length_ancestors_le_rank (p : Path) : (ancestors p).length ≤ rank p := by
  fun_induction ancestors p with
  | case1 => exact Nat.zero_le _
  | case2 p q h ih => exact Nat.lt_of_le_of_lt ih (rank_dirName_lt h)

theorem length_ancestors_le (p : Path) : (ancestors p).length ≤ p.length + 1 := by
  refine (length_ancestors_le_rank p).trans ?_
  unfold rank
  split
  · exact Nat.zero_le _
  · exact Nat.le_refl _

theorem iterate_dirName (p : Path) (n : Nat) :
    (Option.bind · dirName)^[n] (some p) = (p :: ancestors p)[n]? := by
  have hnone : ∀ n, (Option.bind · dirName)^[n] none = none := Function.iterate_fixed rfl
  fun_induction ancestors p generalizing n with
  | case1 p h =>
    cases n with
    | zero => rfl
    | succ n => rw [Function.iterate_succ_apply, Option.bind_some, h, hnone]; rfl
  | case2 p q h ih =>
    cases n with
    | zero => rfl
    | succ n => rw [Function.iterate_succ_apply, Option.bind_some, h, ih, List.getElem?_cons_succ]

/-! ## Ancestors of rooted paths -/

/-- The proper fronts of some segments, the longest first. -/
def shorter (ss : List Text) : List (List Text) :=
  ss.inits.dropLast.reverse

theorem inits_concat (ss : List Text) (s : Text) :
    (ss ++ [s]).inits = ss.inits ++ [ss ++ [s]] := by
  rw [List.inits_append]
  rfl

theorem shorter_concat (ss : List Text) (s : Text) : shorter (ss ++ [s]) = ss :: shorter ss := by
  have hlast : ss.inits = ss.inits.dropLast ++ [ss] := by
    cases ss using List.reverseRecOn with
    | nil => rfl
    | append_singleton ss u => rw [inits_concat, List.dropLast_concat]
  rw [shorter, inits_concat, List.dropLast_concat, hlast, List.reverse_concat]
  rfl

theorem getLast?_shorter {ss : List Text} (h : ss ≠ []) : (shorter ss).getLast? = some [] := by
  induction ss using List.reverseRecOn with
  | nil => exact absurd rfl h
  | append_singleton ss s ih =>
    rw [shorter_concat, List.getLast?_cons]
    by_cases hss : ss = []
    · rw [hss]
      rfl
    · rw [ih hss]
      rfl

/-- From a root, the way up leads through fewer and fewer segments to the root itself. -/
theorem ancestors_through {root : Root} (hroot : root.Proper) {ss : List Text}
    (hs : ∀ s ∈ ss, IsSegment s) :
    ancestors (root.through ss) = (shorter ss).map root.through := by
  induction ss using List.reverseRecOn with
  | nil => exact ancestors_of_dirName_none (dirName_root hroot)
  | append_singleton ss s ih =>
    rw [ancestors_of_dirName (dirName_through hroot hs), shorter_concat, List.map_cons,
      ih fun u hu => hs u (List.mem_append_left _ hu)]

/-! ## A path in two -/

/-- A path that was normalized stays as it is, unless it is on a drive without a slash behind it. -/
theorem normalize_eq_self {source : Path} (hp : p = normalize source)
    (hdrive : ∀ letter, (cutRoot p).1 ≠ .drive letter false) : normalize p = p := by
  subst hp
  rcases settled_or_slips source with ⟨hsettled, -⟩ | ⟨⟨hroot, s, hs, hdots⟩, -⟩
  · exact hsettled
  obtain ⟨k, zs, hzs, hfold, hn⟩ := exists_fold_of_not_isRooted hroot
  rw [hfold] at hs
  obtain ⟨letter, dots, zs', hl, rfl, he, rfl⟩ := exists_drive hs (isDrive_of_dotsOnDrive hdots)
  have hseg : ∀ u ∈ dots :: zs', IsSegment u := by
    refine isSegment_dots ?_ (isSegment_all fun z hz => hzs z (List.mem_cons_of_mem _ hz))
    simpa [dotsOnDrive, hl] using hdots
  have hproper : (Root.drive letter false).Proper := hl
  refine absurd ?_ (hdrive letter)
  rw [hn, he, text_drive, cutRoot_through hproper hseg]

theorem normalize_root_slash {root : Root} (hroot : root.Proper)
    (hslash : ∀ letter, root ≠ .drive letter false) {y : Text} (hy : Ordinary y) :
    normalize (root.text ++ '/' :: y) = root.through [y] := by
  have hforward : forward (root.text ++ '/' :: y) = root.text ++ '/' :: y := by
    rw [forward_append, forward_cons_slash, forward_eq_self hroot.backslash,
      forward_eq_self hy.backslash]
  have hcut : cutRoot (root.text ++ '/' :: y) = (root, '/' :: y) := by
    match root, hroot with
    | .top, _ => rfl
    | .drive letter true, hl => exact cutRoot_drive_slash hl _
    | .drive letter false, _ => exact absurd rfl (hslash letter)
  have hsegments : segmentsOf ('/' :: y) = [y] := by
    rw [← List.nil_append ('/' :: y), segmentsOf_append_slash, segmentsOf_of_isSegment hy.toIsSegment]
    rfl
  have hrooted : isRooted (root.text ++ '/' :: y) = true := by
    rw [isRooted, hforward, hcut]
    exact hroot.anchored
  rw [normalize_of_isRooted hrooted, hforward, hcut, hsegments,
    settle_ordinary [] (List.forall_mem_singleton.2 hy)]
  rfl

theorem baseName_through {root : Root} (hroot : root.Proper)
    (hslash : ∀ letter, root ≠ .drive letter false) (us : List Text) {y : Text} (hy : IsSegment y) :
    baseName (root.through (us ++ [y])) = y := by
  obtain ⟨front, hlast, hfront⟩ := exists_front us
  have hend : (root.text ++ front).getLast? = some '/' := by
    match root, hroot with
    | .top, _ => exact hlast
    | .drive letter true, _ => exact hlast
    | .drive letter false, _ => exact absurd rfl (hslash letter)
  rw [Root.through, hfront, ← List.append_assoc]
  refine baseName_append _ hy fun c hc => ?_
  rw [hend] at hc
  cases hc
  rfl

theorem combine_through {root : Root} (hroot : root.Proper)
    (hslash : ∀ letter, root ≠ .drive letter false) {us : List Text} {y : Text}
    (hs : ∀ s ∈ us ++ [y], Ordinary s) :
    combine (root.through us) y = root.through (us ++ [y]) := by
  have hy : Ordinary y := hs y (by simp)
  have hne : root.through us ≠ [] := fun e => hroot.text_ne_nil (List.append_eq_nil_iff.1 e).1
  rw [combine_of_ne_nil hne hy.ne_nil]
  by_cases hus : us = []
  · subst hus
    rw [Root.through, Text.join_nil, List.append_nil]
    exact normalize_root_slash hroot hslash hy
  · have hthrough : root.through us ++ '/' :: y = root.through (us ++ [y]) := by
      rw [Root.through, Root.through, Text.join_append _ hus (List.cons_ne_nil _ _),
        Text.join_singleton, List.append_assoc, List.append_assoc, List.singleton_append]
    rw [hthrough, normalize_through hroot hs]

theorem baseName_join (us : List Text) {y : Text} (hy : IsSegment y) :
    baseName (Text.join ['/'] (us ++ [y])) = y := by
  obtain ⟨front, hlast, hfront⟩ := exists_front us
  rw [hfront]
  refine baseName_append _ hy fun c hc => ?_
  have hslash : ('/' :: front).getLast? = some c := by
    rw [List.getLast?_cons, show front.getLast? = some c from hc]
    rfl
  rw [hlast] at hslash
  cases hslash
  rfl

theorem normalize_self_slash (h : isRooted p = false) :
    normalize (self ++ '/' :: p) = normalize p := by
  have hforward : forward (self ++ '/' :: p) = self ++ '/' :: forward p := by
    rw [forward_append, forward_cons_slash]
    rfl
  have hstart : isRooted (self ++ '/' :: p) = false := by
    rw [isRooted, hforward]
    rfl
  have hsegments : segmentsOf (self ++ '/' :: forward p) = self :: segmentsOf (forward p) :=
    segmentsOf_append_slash self _
  rw [normalize, partsOf_of_not_isRooted hstart, hforward, hsegments, normalize,
    partsOf_of_not_isRooted h]
  rfl

/-- Where a path starts anywhere, it is its directory combined with its name. -/
theorem exists_parent_of_not_isRooted (hn : normalize p = p) (hroot : isRooted p = false)
    (hself : p ≠ self) : ∃ q, dirName p = some q ∧ combine q (baseName p) = p := by
  obtain ⟨k, zs, hzs, -, htext⟩ := exists_fold_of_not_isRooted hroot
  have hseg := isSegment_ups_append (k := k) hzs
  have hno : ∀ s ∈ ups k ++ zs, s ≠ self := by
    rintro s hs rfl
    rcases List.mem_append.1 hs with hs | hs
    · exact absurd (List.eq_of_mem_replicate hs) (by decide)
    · exact (hzs _ hs).ne_self rfl
  rw [hn] at htext
  generalize ups k ++ zs = ss at hseg hno htext
  cases ss using List.reverseRecOn with
  | nil => exact absurd htext hself
  | append_singleton us y =>
    have hy : IsSegment y := hseg y (by simp)
    have hjoin : p = Text.join ['/'] (us ++ [y]) := by
      rw [htext, Parts.text, if_neg (by simp)]
      rfl
    have hcut : cutRoot (forward p) = (.here, Text.join ['/'] (us ++ [y])) := by
      have hne := isRooted_iff.not.1 (Bool.eq_false_iff.1 hroot)
      rw [not_or, Bool.not_eq_true] at hne
      rw [cutRoot_here hne.1 hne.2, hjoin, forward_join hseg]
    have hdir := dirName_of_cutRoot hcut hy
    by_cases hus : us = []
    · subst hus
      rw [if_pos rfl, if_neg (by decide), if_neg (hno y (by simp))] at hdir
      refine ⟨self, hdir, ?_⟩
      rw [hjoin, baseName_join [] hy, List.nil_append, Text.join_singleton,
        combine_of_ne_nil (by decide) hy.ne_nil]
      rw [List.nil_append, Text.join_singleton] at hjoin
      rw [← hjoin, normalize_self_slash hroot, hn]
    · rw [if_neg hus] at hdir
      refine ⟨_, hdir, ?_⟩
      have hboth : Text.join ['/'] us ++ '/' :: y = p := by
        rw [hjoin, Text.join_append _ hus (List.cons_ne_nil _ _), Text.join_singleton,
          List.append_assoc, List.singleton_append]
      have hfront : Text.join ['/'] us ≠ [] := by
        intro hnil
        have hsegments := segmentsOf_join fun s hs => hseg s (List.mem_append_left _ hs)
        rw [hnil] at hsegments
        exact hus hsegments.symm
      rw [Root.text, List.nil_append, hjoin, baseName_join us hy, ← hjoin,
        combine_of_ne_nil hfront hy.ne_nil, hboth, hn]

theorem exists_through {source : Path} (hp : p = normalize source) (hroot : isRooted p = true) :
    ∃ (root : Root) (ss : List Text), root.Proper ∧ (∀ s ∈ ss, IsSegment s) ∧ p = root.through ss := by
  cases hsource : isRooted source with
  | true =>
    obtain ⟨root, ss, hproper, hs, he⟩ := anchored_normalize hsource
    exact ⟨root, ss, hproper, isSegment_all hs, hp.trans he⟩
  | false =>
    -- then a drive has come to the front
    obtain ⟨k, zs, hzs, -, hn⟩ := exists_fold_of_not_isRooted hsource
    have hseg := isSegment_ups_append (k := k) hzs
    have hdrive : ∃ s ∈ (ups k ++ zs).head?, isDrive s = true := by
      rw [hp, hn] at hroot
      cases hss : ups k ++ zs with
      | nil =>
        rw [hss] at hroot
        exact absurd hroot (by decide)
      | cons s ss =>
        rw [hss] at hroot hseg
        rw [text_here_cons] at hroot
        refine ⟨s, rfl, ?_⟩
        rcases isRooted_iff.1 hroot with htop | hd
        · rw [FromTop, forward_join hseg] at htop
          exact absurd htop (head?_join (hseg s List.mem_cons_self))
        · rwa [forward_join hseg, isDrive_join] at hd
    obtain ⟨s, hs, hd⟩ := hdrive
    obtain ⟨letter, rest, zs', hl, rfl, he, rfl⟩ := exists_drive hs hd
    obtain ⟨hz, hzs'⟩ := List.forall_mem_cons.1 hzs
    rw [he] at hn
    by_cases hdots : rest = self ∨ rest = up
    · exact ⟨.drive letter false, rest :: zs', hl, isSegment_dots hdots (isSegment_all hzs'),
        hp.trans (hn.trans (text_drive letter rest zs'))⟩
    · have hslash : '/' ∉ rest := fun hm => hz.slash (by simp [hm])
      have hbackslash : '\\' ∉ rest := fun hm => hz.backslash (by simp [hm])
      obtain ⟨root, ss, hproper, hss, htext⟩ :=
        anchored_text_drive hl hzs' hslash hbackslash (not_or.1 hdots)
      exact ⟨root, ss, hproper, isSegment_all hss, hp.trans (hn.trans htext)⟩

/-- Chains of parents are finite and exact. Going up from a path, one meets its ancestors, of which
there are at most one more than it has characters, and then nothing. The ancestors of a rooted path
that was normalized are the paths from its root through the proper fronts of its segments, the longest
first and the root last. Unless it is a root, or the place itself, or on a drive without a slash, what was normalized is
the directory it lies in combined with its name. -/
theorem parents_exact (p : Path) :
    (∀ n, (Option.bind · dirName)^[n] (some p) = (p :: ancestors p)[n]?) ∧
      (ancestors p).length ≤ p.length + 1 ∧
      ∀ source, p = normalize source →
        (isRooted p = true → p = (Parts.of p).root.through (Parts.of p).segments ∧
          ancestors p = (shorter (Parts.of p).segments).map (Parts.of p).root.through ∧
          (p ≠ (Parts.of p).root.text → (ancestors p).getLast? = some (Parts.of p).root.text)) ∧
        ((∀ letter, (Parts.of p).root ≠ .drive letter false) → p ≠ (Parts.of p).root.text →
          p ≠ self → ∃ q, dirName p = some q ∧ combine q (baseName p) = p) := by
  refine ⟨iterate_dirName p, length_ancestors_le p, fun source hp => ⟨fun hroot => ?_, ?_⟩⟩
  · obtain ⟨root, ss, hproper, hs, rfl⟩ := exists_through hp hroot
    rw [of_through hproper hs, ancestors_through hproper hs]
    refine ⟨rfl, rfl, fun hbare => ?_⟩
    have hss : ss ≠ [] := by
      rintro rfl
      exact hbare (List.append_nil _)
    rw [List.getLast?_map, getLast?_shorter hss]
    exact congrArg some (List.append_nil _)
  · intro hdrive hbare hself
    have hn := normalize_eq_self hp hdrive
    cases hroot : isRooted p with
    | false => exact exists_parent_of_not_isRooted hn hroot hself
    | true =>
      obtain ⟨root, ss, hproper, hs, rfl⟩ := hn ▸ anchored_normalize hroot
      rw [of_through hproper (isSegment_all hs)] at hdrive hbare
      cases ss using List.reverseRecOn with
      | nil => exact absurd (List.append_nil _) hbare
      | append_singleton us y =>
        refine ⟨root.through us, dirName_through hproper (isSegment_all hs), ?_⟩
        rw [baseName_through hproper hdrive us (hs y (by simp)).toIsSegment,
          combine_through hproper hdrive hs]

/-- A path on a drive, and one that goes up first. -/
theorem parents_exact_drive :
    let p := "C:/b/d.ts".toList
    let q := "../d.ts".toList
    p = normalize "C:\\a/../b//./d.ts".toList ∧ isRooted p = true ∧
      (∀ letter, (Parts.of p).root ≠ .drive letter false) ∧ p ≠ (Parts.of p).root.text ∧ p ≠ self ∧
      ancestors p = ["C:/b".toList, "C:/".toList] ∧
      (∃ d, dirName p = some d ∧ combine d (baseName p) = p) ∧
      q = normalize "./..\\d.ts".toList ∧ isRooted q = false ∧ q ≠ self ∧
      (Option.bind · dirName)^[2] (some q) = (q :: ancestors q)[2]? ∧
      ∃ d, dirName q = some d ∧ combine d (baseName q) = q := by
  intro p q
  have hp : p = normalize "C:\\a/../b//./d.ts".toList := by decide
  have hq : q = normalize "./..\\d.ts".toList := by decide
  have hproot : (Parts.of p).root = .drive 'C' true := by decide
  have hqroot : (Parts.of q).root = .here := by decide
  have hpdrive : ∀ letter, (Parts.of p).root ≠ .drive letter false := by simp [hproot]
  have hqdrive : ∀ letter, (Parts.of q).root ≠ .drive letter false := by simp [hqroot]
  have hpbare : p ≠ (Parts.of p).root.text := by decide
  have hqbare : q ≠ (Parts.of q).root.text := by decide
  have hpself : p ≠ self := by decide
  have hqself : q ≠ self := by decide
  have hprooted : isRooted p = true := by decide
  obtain ⟨-, -, hsource⟩ := parents_exact p
  obtain ⟨hchain, htwo⟩ := hsource _ hp
  obtain ⟨hsteps, -, hsource'⟩ := parents_exact q
  refine ⟨hp, hprooted, hpdrive, hpbare, hpself, (hchain hprooted).2.1.trans (by decide),
    htwo hpdrive hpbare hpself, hq, by decide, hqself, hsteps 2,
    (hsource' _ hq).2 hqdrive hqbare hqself⟩

end BatchCompile.Path
