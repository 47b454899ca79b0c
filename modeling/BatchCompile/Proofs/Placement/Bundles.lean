import BatchCompile.Emission
import BatchCompile.Mapping.Relocation
import BatchCompile.Proofs.Mapping.Decoded
import BatchCompile.Proofs.Path.Anchored
import BatchCompile.Proofs.Placement.Maps

/-!
# Bundles

A bundle goes where its name says (`exists_outFile`). Its map names every source by the way from the
bundle's directory, which leads back to it unless it lies on a drive, and maps every line to the line
of the source that it is (`mapsBack_bundle`).
-/

namespace BatchCompile

open BatchCompile.Path

namespace Path

/-! ## Names in rooted paths -/

theorem segmentsOf_append_slashes (a : Text) {b : Text} (h : ∀ c ∈ b, c = '/') :
    segmentsOf (a ++ b) = segmentsOf a := by
  induction b generalizing a with
  | nil => rw [List.append_nil]
  | cons c b ih =>
    have hrest := ih [] fun d hd => h d (List.mem_cons_of_mem _ hd)
    rw [h c List.mem_cons_self, segmentsOf_append_slash, show segmentsOf b = [] from hrest,
      List.append_nil]

theorem forward_of_slash {c : Char} (h : isSlash c = true) : forward [c] = ['/'] := by
  rcases Bool.or_eq_true _ _ ▸ h with h | h
  · rw [eq_of_beq h]
    rfl
  · rw [eq_of_beq h]
    rfl

theorem exists_baseName (p : Path) : ∃ front back, p = front ++ baseName p ++ back ∧
    (∀ c ∈ front.getLast?, isSlash c = true) ∧ ∀ c ∈ back, isSlash c = true := by
  let kept := p.reverse.dropWhile isSlash
  refine ⟨(kept.dropWhile fun c => !isSlash c).reverse, (p.reverse.takeWhile isSlash).reverse,
    ?_, fun c hc => ?_, fun c hc => ?_⟩
  · have hname : (kept.dropWhile fun c => !isSlash c).reverse ++ baseName p = kept.reverse := by
      rw [baseName, ← List.reverse_append, List.takeWhile_append_dropWhile]
    have hp : kept.reverse ++ (p.reverse.takeWhile isSlash).reverse = p := by
      rw [← List.reverse_append, List.takeWhile_append_dropWhile, List.reverse_reverse]
    rw [hname, hp]
  · rw [List.getLast?_reverse] at hc
    have := List.head?_dropWhile_not (fun c => !isSlash c) kept
    rw [Option.mem_def.1 hc] at this
    simpa using this
  · exact List.mem_takeWhile_imp (List.mem_reverse.1 hc)

theorem exists_segments_baseName {p : Path} (h : baseName p ≠ []) :
    ∃ ss, segmentsOf (forward p) = ss ++ [baseName p] := by
  have hname : IsSegment (baseName p) := by
    have hall : ∀ c ∈ baseName p, isSlash c = false := fun c hc => by
      simpa using List.mem_takeWhile_imp (List.mem_reverse.1 hc)
    exact ⟨h, fun hm => absurd (hall _ hm) (by decide), fun hm => absurd (hall _ hm) (by decide)⟩
  obtain ⟨front, back, hp, hfront, hback⟩ := exists_baseName p
  have hslashes : ∀ c ∈ forward back, c = '/' := by
    intro c hc
    obtain ⟨d, hd, rfl⟩ := List.mem_map.1 hc
    exact List.singleton_inj.1 (forward_of_slash (hback d hd))
  rw [hp, forward_append, forward_append, segmentsOf_append_slashes _ hslashes,
    forward_eq_self hname.backslash, ← hp]
  cases front using List.reverseRecOn with
  | nil => exact ⟨[], segmentsOf_of_isSegment hname⟩
  | append_singleton front c =>
    have hc : isSlash c = true := hfront c (by simp)
    rw [forward_append, forward_of_slash hc, List.append_assoc, List.singleton_append,
      segmentsOf_append_slash, segmentsOf_of_isSegment hname]
    exact ⟨_, rfl⟩

/-- From a rooted directory a path leads on by its segments, or they lead from the top. -/
theorem exists_land_eq {cwd : Path} (hc : FromTop cwd) {d : Path} (hd : isDrive (forward d) = false) :
    ∃ base, (∀ s ∈ base, Ordinary s) ∧
      land (land [] cwd) d = settle base (segmentsOf (forward d)) := by
  by_cases ht : FromTop d
  · obtain ⟨t, ht⟩ := ht.forward_eq
    refine ⟨[], by simp, ?_⟩
    rw [land_of_top _ ht, ht]
    exact congrArg (settle []) (segmentsOf_append_slash [] t).symm
  · exact ⟨_, ordinary_land_top hc, land_of_here _ ht hd⟩

theorem Anchored.exists_atTop {p : Path} (h : Anchored p) (ht : FromTop p) :
    ∃ ss, (∀ s ∈ ss, Ordinary s) ∧ p = atTop ss := by
  obtain ⟨root, ss, hroot, hs, rfl⟩ := h
  match root, hroot with
  | .top, _ => exact ⟨ss, hs, rfl⟩
  | .drive letter slash, hroot =>
    have hletter : letter.isAlpha = true := hroot
    rw [FromTop, forward_through hroot (isSegment_all hs)] at ht
    cases slash <;> · cases ht; exact absurd hletter (by decide)

theorem isDrive_of_fromTop_resolve {cwd d : Path} (hc : FromTop cwd)
    (ht : FromTop (resolve cwd [d])) : isDrive (forward d) = false := by
  rw [Bool.eq_false_iff]
  intro hd
  have hne : d ≠ [] := by
    rintro rfl
    cases hd
  have hr : resolve cwd [d] = normalize (forward d) := by
    rw [resolve, List.foldl_cons, List.foldl_nil, follow, if_neg hne,
      if_pos (isRooted_iff.2 (.inr hd))]
  obtain ⟨ss, hss, he⟩ := (anchored_resolve (isRooted_iff.2 (.inl hc)) d).exists_atTop ht
  refine root_normalize_of_drive (p := forward d) (by rwa [forward_forward]) ?_
  rw [← hr, he, of_atTop (isSegment_all hss)]

theorem relative_of_not_fromTop {xs : List Text} (hx : ∀ s ∈ xs, Ordinary s) {p : Path}
    (h : Anchored p) (ht : ¬FromTop p) : relative (atTop xs) p = p := by
  obtain ⟨root, ss, hroot, hs, rfl⟩ := h
  have hseg := isSegment_all hs
  have hne : atTop xs ≠ root.through ss := fun e => ht (e ▸ fromTop_atTop xs)
  have hroots : Text.asciiLower Root.top.text ≠ Text.asciiLower root.text := by
    match root, hroot with
    | .top, _ => exact absurd (fromTop_atTop ss) ht
    | .drive _ true, _ => exact fun e => absurd (congrArg List.length e) (by simp [Text.asciiLower, Root.text])
    | .drive _ false, _ => exact fun e => absurd (congrArg List.length e) (by simp [Text.asciiLower, Root.text])
  unfold relative
  rw [normalize_atTop hx, normalize_through hroot hs]
  simp only [if_neg hne, of_atTop (isSegment_all hx), partsOf_eq (root.through ss),
    cutRoot_through hroot hseg, if_pos hroots]

theorem anchored_combine {p q : Path} (hp : isRooted p = true) (hq : q ≠ []) :
    Anchored (combine p q) := by
  have hne : p ≠ [] := by
    rintro rfl
    exact absurd hp (by decide)
  rw [combine_of_ne_nil hne hq]
  exact anchored_normalize (isRooted_append hp _)

end Path

/-! ## The place of a bundle -/

section

variable {cwd : Path} {options : Options} {goal : Option Path} {out : Path}

theorem outFile_eq_some (h : (Configuration.resolve cwd options goal).outFile = some out) :
    (Configuration.resolve cwd options goal).singleOutput = true ∧
      ∃ d, extension d = ".js".toList ∧ out = resolve cwd [d] := by
  unfold Configuration.resolve at h ⊢
  simp only at h ⊢
  split at h
  · rename_i hbundled
    obtain ⟨d, hd, rfl⟩ := Option.map_eq_some_iff.1 h
    rw [hd, Option.any_some, decide_eq_true_eq] at hbundled
    exact ⟨by rw [hd, Option.any_some, decide_eq_true hbundled], d, hbundled, rfl⟩
  · cases h

theorem exists_outFile (hc : FromTop cwd)
    (hout : (Configuration.resolve cwd options goal).outFile = some out) (ht : FromTop out) :
    (Configuration.resolve cwd options goal).singleOutput = true ∧
      ∃ oo x, (∀ s ∈ oo, Ordinary s) ∧ Ordinary x ∧ Ordinary (x ++ ".map".toList) ∧
        out = atTop (oo ++ [x]) := by
  obtain ⟨hs, d, hext, rfl⟩ := outFile_eq_some hout
  refine ⟨hs, ?_⟩
  have hfree := isDrive_of_fromTop_resolve hc ht
  obtain ⟨stem, hstem, hne, -⟩ := exists_stem d
  rw [hext] at hstem
  have hname : baseName d ≠ [] := by
    rw [hstem]
    simp
  obtain ⟨base, hbase, hland⟩ := exists_land_eq hc hfree
  obtain ⟨ss, hss⟩ := exists_segments_baseName hname
  have hall := ordinary_land (ordinary_land_top hc) hfree
  have hseg : ∀ s ∈ ss ++ [baseName d], IsSegment s := fun s hm =>
    isSegment_of_mem_segmentsOf (backslash_notMem_forward d) (hss ▸ hm)
  have hx : Ordinary (baseName d) := by
    refine ⟨hseg _ (by simp), ?_, ?_⟩ <;>
    · intro e
      have := congrArg List.length (hstem.symm.trans e)
      simp [self, up] at this
  refine ⟨Path.settle base ss, baseName d, ordinary_settle hbase fun s hm =>
    hseg s (List.mem_append_left _ hm), hx, ?_, ?_⟩
  · rw [hstem, List.append_assoc]
    exact ordinary_stem (hne hname) (hstem ▸ hx) (by decide) (by decide) (by decide)
  · rw [resolve_eq hc (by simpa using hfree), List.foldl_cons, List.foldl_nil, hland, hss,
      settle_append, settle_down _ hx.ne_self hx.ne_up]

end

theorem placedText_of_singleOutput {cwd : Path} {c : Configuration} (h : c.singleOutput = true)
    (name place : Path) (text : Text) : placedText cwd c name place text = .ok text := by
  have hmoves : movesMap c name place = false := by
    rw [movesMap, h]
    rfl
  rw [placedText, hmoves]
  rfl

/-! ## The lines of a bundle -/

def linesOfUnits (units : List SourceUnit) : List Text :=
  units.flatMap fun u => Text.lines u.text

/-- The lines of units can be told from the text of their bundle, if there are any. -/
theorem eq_linesOfUnits (newLine : NewLine) {units : List SourceUnit} {lines : List Text}
    (hl : lines ≠ []) (hu : linesOfUnits units ≠ []) (hfree : ∀ l ∈ lines, '\n' ∉ l)
    (h : Text.join newLine.text lines = Text.join newLine.text (linesOfUnits units)) :
    lines = linesOfUnits units := by
  have hlines : ∀ l ∈ linesOfUnits units, '\n' ∉ l := by
    intro l hm
    obtain ⟨u, -, hm⟩ := List.mem_flatMap.1 hm
    exact Text.lineFeed_notMem_of_mem_lines hm
  cases newLine with
  | lf => exact Text.join_injective (e := []) List.not_mem_nil hl hu hfree hlines h
  | crlf => exact Text.join_injective (e := ['\r']) (by decide) hl hu hfree hlines h

/-- Line `g` of a bundle is line `l` of unit `k`. -/
def IsLine (units : List SourceUnit) (g k l : Nat) : Prop :=
  ∃ u, units[k]? = some u ∧ l < (Text.lines u.text).length ∧
    g = (linesOfUnits (units.take k)).length + l

theorem getElem?_origins {source : Nat} {lines : List Text} {g : Nat} {o : Origin} :
    (origins source lines)[g]? = some o ↔ g < lines.length ∧ o = ⟨source, g⟩ := by
  rw [origins, List.getElem?_map]
  by_cases hg : g < lines.length
  · rw [List.getElem?_range hg]
    simp [hg, eq_comm]
  · rw [List.getElem?_eq_none (by simpa using hg)]
    simp [hg]

theorem isLine_zero {u : SourceUnit} {units : List SourceUnit} {g l : Nat} :
    IsLine (u :: units) g 0 l ↔ l < (Text.lines u.text).length ∧ g = l := by
  simp [IsLine, linesOfUnits]

theorem isLine_succ {u : SourceUnit} {units : List SourceUnit} {g k l : Nat} :
    IsLine (u :: units) g (k + 1) l ↔ (Text.lines u.text).length ≤ g ∧
      IsLine units (g - (Text.lines u.text).length) k l := by
  simp only [IsLine, linesOfUnits, List.getElem?_cons_succ, List.take_succ_cons, List.flatMap_cons,
    List.length_append]
  constructor
  · rintro ⟨v, hv, hl, rfl⟩
    exact ⟨by omega, v, hv, hl, by omega⟩
  · rintro ⟨hg, v, hv, hl, he⟩
    exact ⟨v, hv, hl, by omega⟩

theorem getElem?_bundleOrigins {units : List SourceUnit} {first g : Nat} {o : Origin} :
    (bundleOrigins first (units.map fun u => Text.lines u.text))[g]? = some o ↔
      ∃ k, o.source = first + k ∧ IsLine units g k o.line := by
  induction units generalizing first g with
  | nil => simp [bundleOrigins, IsLine]
  | cons u units ih =>
    rw [List.map_cons, bundleOrigins, List.getElem?_append,
      show (origins first (Text.lines u.text)).length = (Text.lines u.text).length by
        simp [origins]]
    split
    · rename_i hg
      rw [getElem?_origins]
      constructor
      · rintro ⟨-, rfl⟩
        exact ⟨0, rfl, isLine_zero.2 ⟨hg, rfl⟩⟩
      · rintro ⟨k, hk, hline⟩
        cases k with
        | zero =>
          obtain ⟨-, rfl⟩ := isLine_zero.1 hline
          exact ⟨hg, by cases o; simp_all⟩
        | succ k => exact absurd (isLine_succ.1 hline).1 (by omega)
    · rename_i hg
      rw [ih]
      constructor
      · rintro ⟨k, hk, hline⟩
        exact ⟨k + 1, by omega, isLine_succ.2 ⟨by omega, hline⟩⟩
      · rintro ⟨k, hk, hline⟩
        cases k with
        | zero =>
          obtain ⟨hl, rfl⟩ := isLine_zero.1 hline
          exact absurd hl hg
        | succ k => exact ⟨k, by omega, (isLine_succ.1 hline).2⟩

theorem length_bundleOrigins (first : Nat) (units : List SourceUnit) :
    (bundleOrigins first (units.map fun u => Text.lines u.text)).length =
      (linesOfUnits units).length := by
  induction units generalizing first with
  | nil => rfl
  | cons u units ih => simp [bundleOrigins, origins, linesOfUnits, ih]

/-! ## The map of a bundle -/

/-- Seen from the directory of a bundle, its sources and the segments of its lines lead back to the
units. A unit that lies on a drive is named by its path. -/
structure MapsBack (directory : Path) (units : List SourceUnit) (sources : List Text)
    (segments : List (List Segment)) : Prop where
  length : sources.length = units.length
  source : ∀ (k : Nat) (u : SourceUnit) (r : Path), units[k]? = some u → sources[k]? = some r →
    (FromTop u.path → combine directory r = u.path) ∧ (¬FromTop u.path → r = u.path)
  total : segments.flatten.length = (linesOfUnits units).length
  single : ∀ g < (linesOfUnits units).length, ∃ k l : Nat, segments[g]? = some [⟨0, k, l, 0⟩]
  line : ∀ g k l : Nat, segments[g]? = some [⟨0, k, l, 0⟩] ↔ IsLine units g k l

/-- A document is a map with these sources and mappings. -/
def Documents (document : Text) (sources : List Text) (mappings : Text) : Prop :=
  ∃ members, Json.Value.read document = .ok (.object members) ∧
    Json.member? "sources" members = some (.array (sources.map .string)) ∧
    Json.member? "mappings" members = some (.string mappings)

theorem documents_of (file : Text) (sources : List Text) (mappings : Text) :
    Documents (MapDocument.of file sources mappings).text sources mappings :=
  ⟨_, MapDocument.read_text (m := MapDocument.of file sources mappings)
    (show 3 ≤ Json.maxSignificand by decide), rfl, rfl⟩

theorem exists_segments_bundle (units : List SourceUnit) :
    ∃ segments,
      Segment.decode? (lineMappings (bundleOrigins 0 (units.map fun u => Text.lines u.text))) =
        some segments ∧
      segments.flatten.length = (linesOfUnits units).length ∧
      (∀ g < (linesOfUnits units).length, ∃ k l : Nat, segments[g]? = some [⟨0, k, l, 0⟩]) ∧
      ∀ g k l : Nat, segments[g]? = some [⟨0, k, l, 0⟩] ↔ IsLine units g k l := by
  obtain ⟨segments, hdecode, htotal, hsegment⟩ :=
    exists_decode_lineMappings (bundleOrigins 0 (units.map fun u => Text.lines u.text))
  rw [length_bundleOrigins] at htotal
  refine ⟨segments, hdecode, htotal, fun g hg => ?_, fun g k l => ?_⟩
  · rw [← length_bundleOrigins 0] at hg
    exact ⟨_, _, (hsegment g _).2 (List.getElem?_eq_getElem hg)⟩
  · refine (hsegment g ⟨k, l⟩).trans (getElem?_bundleOrigins.trans ?_)
    simp

theorem mapsBack_bundle {oo : List Text} (ho : ∀ s ∈ oo, Ordinary s) {units : List SourceUnit}
    (hu : ∀ u ∈ units, Anchored u.path) :
    ∃ segments,
      Segment.decode? (lineMappings (bundleOrigins 0 (units.map fun u => Text.lines u.text))) =
        some segments ∧
      MapsBack (atTop oo) units (units.map fun u => relative (atTop oo) u.path) segments := by
  obtain ⟨segments, hdecode, htotal, hsingle, hline⟩ := exists_segments_bundle units
  refine ⟨segments, hdecode, by simp, fun k u r hk hr => ?_, htotal, hsingle, hline⟩
  rw [List.getElem?_map, hk, Option.map_some, Option.some.injEq] at hr
  have hanch := hu u (List.mem_of_getElem? hk)
  subst hr
  refine ⟨fun ht => ?_, relative_of_not_fromTop ho hanch⟩
  obtain ⟨ss, hss, he⟩ := hanch.exists_atTop ht
  rw [he, combine_relative ho hss]

end BatchCompile
