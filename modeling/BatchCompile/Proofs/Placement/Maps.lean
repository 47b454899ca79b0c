import BatchCompile.Emission
import BatchCompile.Proofs.Mapping.Relocated
import BatchCompile.Proofs.Path.Parents
import BatchCompile.Proofs.Placement.Layout

/-!
# Maps find their sources

A script names its map, and the map names its source, each as seen from where it stands. Placing
both keeps that (`placed_map_finds_source`): they move together, so the name of the map stays right,
and the map is relocated by the way from its new directory back to the old one.
-/

namespace BatchCompile

open BatchCompile.Path

/-! ## Names of scripts -/

theorem isDrive_stem {stem rest other : Text} (hne : stem ≠ [])
    (h : isDrive (stem ++ rest) = false) : isDrive (stem ++ '.' :: other) = false := by
  match stem with
  | [] => exact absurd rfl hne
  | [c] => simp [isDrive]
  | c :: d :: stem =>
    simp only [List.cons_append] at h ⊢
    unfold isDrive at h ⊢
    by_cases hd : d = ':'
    · subst hd
      exact h
    · simp [hd]

theorem ordinary_stem {stem rest other : Text} (hne : stem ≠ []) (h : Ordinary (stem ++ rest))
    (ho : other ≠ []) (hs : '/' ∉ other) (hb : '\\' ∉ other) : Ordinary (stem ++ '.' :: other) where
  ne_nil := by simp
  slash hm := by
    rcases List.mem_append.1 hm with hm | hm
    · exact h.slash (List.mem_append_left rest hm)
    · exact hs ((List.mem_cons.1 hm).resolve_left (by decide))
  backslash hm := by
    rcases List.mem_append.1 hm with hm | hm
    · exact h.backslash (List.mem_append_left rest hm)
    · exact hb ((List.mem_cons.1 hm).resolve_left (by decide))
  ne_self e := by
    have hlength := congrArg List.length e
    have := List.length_pos_iff.2 hne
    rw [List.length_append, List.length_cons] at hlength
    simp only [self, List.length_cons, List.length_nil] at hlength
    omega
  ne_up e := by
    have hlength := congrArg List.length e
    have := List.length_pos_iff.2 hne
    have := List.length_pos_iff.2 ho
    rw [List.length_append, List.length_cons] at hlength
    simp only [up, List.length_cons, List.length_nil] at hlength
    omega

/-- A source and the names next to it: of its script, and of the map of that. -/
structure Siblings (f js : Text) : Prop where
  source : Ordinary f ∧ isDrive f = false
  script : Ordinary js ∧ isDrive js = false
  map : Ordinary (js ++ ".map".toList) ∧ isDrive (js ++ ".map".toList) = false
  ending : ".js".toList <:+ js

theorem Siblings.suffix_map {f js : Text} (h : Siblings f js) :
    ".js.map".toList <:+ js ++ ".map".toList := by
  obtain ⟨stem, rfl⟩ := h.ending
  exact ⟨stem, by simp⟩

theorem suffix_atTop (pp : List Text) {t x : Text} (h : t <:+ x) : t <:+ atTop (pp ++ [x]) := by
  obtain ⟨front, -, hfront⟩ := exists_front pp
  obtain ⟨stem, rfl⟩ := h
  exact ⟨'/' :: (front ++ stem), by rw [atTop, hfront]; simp⟩

theorem exists_siblings (pp : List Text) {f : Text} (h : Ordinary f) (hd : isDrive f = false) :
    ∃ js, Siblings f js ∧
      replaceExtension (atTop (pp ++ [f])) ".js" = atTop (pp ++ [js]) := by
  obtain ⟨front, -, hfront⟩ := exists_front pp
  have hname := baseName_atTop pp h.toIsSegment
  obtain ⟨stem, hstem, hne, -⟩ := exists_stem (atTop (pp ++ [f]))
  rw [hname] at hstem hne
  have hpath : atTop (pp ++ [f]) = ('/' :: front ++ stem) ++ extension (atTop (pp ++ [f])) := by
    rw [List.append_assoc, ← hstem]
    exact congrArg _ (hfront f)
  generalize extension (atTop (pp ++ [f])) = e at hstem
  subst hstem
  have hstem := hne h.ne_nil
  refine ⟨stem ++ ".js".toList, ⟨⟨h, hd⟩, ⟨?_, ?_⟩, ⟨?_, ?_⟩, List.suffix_append _ _⟩, ?_⟩
  · exact ordinary_stem hstem h (by decide) (by decide) (by decide)
  · exact isDrive_stem hstem hd
  · rw [List.append_assoc]
    exact ordinary_stem hstem h (by decide) (by decide) (by decide)
  · rw [List.append_assoc]
    exact isDrive_stem hstem hd
  · rw [replaceExtension_append hpath, List.append_assoc]
    exact congrArg _ (hfront _).symm

/-! ## The way back -/

/-- From a directory to the old place of a map, and from there to its source. -/
theorem combine_way_back {dd pp : List Text} {x f : Text} (hdd : ∀ s ∈ dd, Ordinary s)
    (hpp : ∀ s ∈ pp, Ordinary s ∧ isDrive s = false) (hx : Ordinary x ∧ isDrive x = false)
    (hf : Ordinary f ∧ isDrive f = false) (hne : ¬pp ++ [x] <+: dd) :
    combine (atTop dd)
      (combine ((dirName (relative (atTop dd) (atTop (pp ++ [x])))).getD self) f) =
        atTop (pp ++ [f]) := by
  have hus : ∀ s ∈ way dd pp, IsSegment s ∧ isDrive s = false := by
    intro s hm
    rcases mem_way hm with rfl | hm
    · exact ⟨isSegment_up, rfl⟩
    · exact ⟨(hpp s hm).1.toIsSegment, (hpp s hm).2⟩
  have hall : ∀ s ∈ way dd pp ++ [x], IsSegment s ∧ isDrive s = false :=
    List.forall_mem_append.2 ⟨hus, by simpa using ⟨hx.1.toIsSegment, hx.2⟩⟩
  have hpx : ∀ s ∈ pp ++ [x], Ordinary s :=
    List.forall_mem_append.2 ⟨fun s hm => (hpp s hm).1, by simpa using hx.1⟩
  have hdir : dirName (relative (atTop dd) (atTop (pp ++ [x]))) =
      some (Parts.text ⟨.here, way dd pp⟩) := by
    rw [relative_atTop hdd hpx fun e => hne (e ▸ List.prefix_rfl), way_concat hne,
      dirName_join hall hx.1.ne_self]
  rw [hdir, Option.getD_some, combine_eq (fromTop_atTop dd), land_atTop [] hdd,
    settle_combine hus dd ⟨hf.1.toIsSegment, hf.2⟩, settle_append,
    settle_way hdd fun s hm => (hpp s hm).1, settle_down pp hf.1.ne_self hf.1.ne_up]

/-! ## Names of maps -/

/-- The script ends with a line that names its map: what follows the last reference. -/
def NamesMap (newLine script name : Text) : Prop :=
  ∃ front, script = front ++ mapReference ++ name ∧ (front = [] ∨ newLine <:+ front) ∧
    ¬mapReference <:+: name

theorem namesMap_withMap (newLine script : Text) {name : Text} (h : '/' ∉ name) :
    NamesMap newLine (withMap newLine script name) name := by
  have hname : ¬mapReference <:+: name := fun hin => h (hin.subset (by decide))
  unfold withMap
  by_cases hs : (script.isEmpty || newLine.isSuffixOf script) = true
  · refine ⟨script, by simp [hs], ?_, hname⟩
    rcases Bool.or_eq_true _ _ ▸ hs with hs | hs
    · exact .inl (List.isEmpty_iff.1 hs)
    · exact .inr (List.isSuffixOf_iff_suffix.1 hs)
  · exact ⟨script ++ newLine, by simp [hs], .inr (List.suffix_append _ _), hname⟩

/-- A script and a map find each other and the source from the paths they are placed at. -/
structure Linked (newLine : Text) (source s script m document : Text) : Prop where
  map : ∃ directory name, dirName s = some directory ∧ NamesMap newLine script name ∧
    combine directory name = m
  source : ∃ directory r, dirName m = some directory ∧ SingleSource document r ∧
    combine directory r = source

/-- A map is neither the directory that it is placed in nor above that. -/
def StaysOut (name m : Path) : Prop :=
  ∀ directory, dirName m = some directory → name ≠ directory ∧ name ∉ ancestors directory

theorem not_prefix_of_staysOut {dd mm : List Text} {y : Text} (hdd : ∀ s ∈ dd ++ [y], IsSegment s)
    (h : StaysOut (atTop mm) (atTop (dd ++ [y]))) : ¬mm <+: dd := by
  intro hp
  obtain ⟨hne, hmem⟩ := h _ (dirName_atTop hdd)
  by_cases he : mm = dd
  · exact hne (by rw [he])
  · exact hmem (mem_ancestors_atTop (fun s hm => hdd s (List.mem_append_left _ hm)) hp he)

/-! ## Places of siblings -/

/-- The files of one directory are placed in one directory, or none of them is accepted. -/
def Together (cwd : Path) (c : Configuration) (pp : List Text) : Prop :=
  (∀ x, Ordinary x ∧ isDrive x = false → ∃ f, destination cwd c (atTop (pp ++ [x])) = .error f) ∨
  ∃ dd, (∀ s ∈ dd, Ordinary s) ∧ (c.destination = none → dd = pp) ∧
    ∀ x, Ordinary x ∧ isDrive x = false →
      destination cwd c (atTop (pp ++ [x])) = .ok (atTop (dd ++ [x]))

theorem destination_resolve_eq_none (cwd : Path) (options : Options) {goal : Option Path}
    (h : ∀ directory, goal = some directory → directory = []) :
    (Configuration.resolve cwd options goal).destination = none := by
  have hempty : Configuration.nonempty goal = none := by
    cases goal with
    | none => rfl
    | some directory =>
      rw [h directory rfl]
      rfl
  show (Configuration.nonempty goal).map normalize = none
  rw [hempty, Option.map_none]

section

variable {cwd : Path} {init : List Text} (hc : FromTop cwd)
  (hi : ∀ s ∈ init, Ordinary s ∧ isDrive s = false)

include hc hi

theorem ordinary_below : ∀ s ∈ land [] cwd ++ init, Ordinary s :=
  List.forall_mem_append.2 ⟨ordinary_land_top hc, fun s hm => (hi s hm).1⟩

theorem together_of_directed {c : Configuration} {directory : Path} (h : Directed c directory)
    (hd : DriveFree directory) : Together cwd c (land [] cwd ++ init) := by
  have key : ∀ x, Ordinary x ∧ isDrive x = false → ∀ d,
      destination cwd c (atTop (land [] cwd ++ init ++ [x])) = .ok d ↔
        ∃ bs rs, init ++ [x] = bs ++ rs ∧ rs ≠ [] ∧ TakesOff c.basePath bs ∧
          d = atTop (land (land [] cwd) directory ++ rs) := by
    intro x hx d
    have hfile : ∀ s ∈ init ++ [x], Ordinary s ∧ isDrive s = false :=
      List.forall_mem_append.2 ⟨hi, by simpa using hx⟩
    refine destination_eq_ok_iff hc hd h (by simp) hfile ?_
    rw [List.append_assoc]
    exact resolve_atTop hc (ordinary_below hc hfile)
  by_cases hbase : ∃ bs rs, init = bs ++ rs ∧ TakesOff c.basePath bs
  · obtain ⟨bs, rs, rfl, hb⟩ := hbase
    refine .inr ⟨land (land [] cwd) directory ++ rs, ?_, ?_, fun x hx => ?_⟩
    · exact List.forall_mem_append.2 ⟨ordinary_land (ordinary_land_top hc) hd.isDrive_forward,
        fun s hm => (hi s (List.mem_append_right bs hm)).1⟩
    · intro hnone
      rw [h.destination] at hnone
      cases hnone
    · exact (key x hx _).2 ⟨bs, rs ++ [x], by simp, by simp, hb, by simp⟩
  · refine .inl fun x hx => ?_
    cases hok : destination cwd c (atTop (land [] cwd ++ init ++ [x])) with
    | error f => exact ⟨f, rfl⟩
    | ok d =>
      obtain ⟨bs, rs, he, hrs, hb, -⟩ := (key x hx d).1 hok
      rw [← List.dropLast_concat_getLast hrs, ← List.append_assoc] at he
      exact absurd ⟨bs, _, (List.append_inj' he rfl).1, hb⟩ hbase

theorem together_resolve (options : Options) {goal : Option Path}
    (hd : ∀ directory ∈ goal, DriveFree directory)
    (hs : (Configuration.resolve cwd options goal).singleOutput = false) :
    Together cwd (Configuration.resolve cwd options goal) (land [] cwd ++ init) := by
  by_cases hgoal : ∃ directory, goal = some directory ∧ directory ≠ []
  · obtain ⟨directory, rfl, hne⟩ := hgoal
    exact together_of_directed hc hi (directed_resolve hne hs) (hd directory rfl)
  · have hnone := destination_resolve_eq_none cwd options fun directory hg =>
      Classical.not_not.1 fun hne => hgoal ⟨directory, hg, hne⟩
    exact .inr ⟨_, ordinary_below hc hi, fun _ => rfl, fun x _ => destination_of_none hnone _⟩

end

/-! ## Texts of siblings -/

theorem placedText_script (cwd : Path) (c : Configuration) {name : Path} (place : Path)
    (text : Text) (h : ".js".toList <:+ name) : placedText cwd c name place text = .ok text := by
  have hsuffix : ".js.map".toList.isSuffixOf name = false := by
    rw [Bool.eq_false_iff]
    intro hm
    have := List.suffix_of_suffix_length_le h (List.isSuffixOf_iff_suffix.1 hm) (by decide)
    revert this
    decide
  rw [placedText, movesMap, hsuffix, Bool.and_false]
  rfl

theorem placedText_map {cwd : Path} {c : Configuration} (hc : FromTop cwd)
    (hs : c.singleOutput = false) {dd pp : List Text} {f js : Text} (hsib : Siblings f js)
    (hdd : ∀ s ∈ dd, Ordinary s) (hpp : ∀ s ∈ pp, Ordinary s ∧ isDrive s = false)
    (hnone : c.destination = none → dd = pp)
    (hout : StaysOut (atTop (pp ++ [js ++ ".map".toList])) (atTop (dd ++ [js ++ ".map".toList])))
    {m : MapDocument} (hv : m.version ≤ Json.maxSignificand) (hm : m.sources = [f]) :
    ∃ text r, placedText cwd c (atTop (pp ++ [js ++ ".map".toList]))
        (atTop (dd ++ [js ++ ".map".toList])) m.text = .ok text ∧
      SingleSource text r ∧ combine (atTop dd) r = atTop (pp ++ [f]) := by
  have hmap := hsib.map
  generalize hx : js ++ ".map".toList = x at *
  have hdx := List.forall_mem_append.2 ⟨hdd, List.forall_mem_singleton.2 hmap.1⟩
  have hpx := List.forall_mem_append.2
    ⟨fun s hm => (hpp s hm).1, List.forall_mem_singleton.2 hmap.1⟩
  by_cases hmoves : movesMap c (atTop (pp ++ [x])) (atTop (dd ++ [x])) = true
  · have hdir : dirName (atTop (dd ++ [x])) = some (atTop dd) :=
      dirName_atTop (isSegment_all hdx)
    have hback := combine_way_back hdd hpp hmap hsib.source
      (not_prefix_of_staysOut (isSegment_all hdx) hout)
    refine ⟨_, _, ?_, MapDocument.singleSource_text (m := { m with sources := [_] }) hv rfl, hback⟩
    rw [placedText, if_pos hmoves, hdir]
    simp only [Option.getD_some, resolve_atTop hc hdd, resolve_atTop hc hpx]
    rw [MapDocument.relocate_text hv hm, baseName_segment hsib.source.1.toIsSegment]
  · have he : dd = pp := by
      cases hd : c.destination with
      | none => exact hnone hd
      | some directory =>
        have hsuffix := List.isSuffixOf_iff_suffix.2 (suffix_atTop pp (hx ▸ hsib.suffix_map))
        have heq : atTop (pp ++ [x]) = atTop (dd ++ [x]) := by
          by_contra hne
          refine hmoves ?_
          rw [movesMap, hs, hd, hsuffix]
          simp [hne]
        have hlists := atTop_inj (isSegment_all hpx)
          (isSegment_all hdx) heq
        exact (List.append_cancel_right hlists).symm
    refine ⟨m.text, f, by rw [placedText, if_neg hmoves], MapDocument.singleSource_text hv hm, ?_⟩
    rw [combine_segment hdd hsib.source.1, he]

/-- Where a script and its map are placed in one directory, they find each other. -/
theorem linked_of_directory (newLine script : Text) {dd pp : List Text} {f js document r : Text}
    (hsib : Siblings f js) (hdd : ∀ s ∈ dd, Ordinary s) (hr : SingleSource document r)
    (hsource : combine (atTop dd) r = atTop (pp ++ [f])) :
    Linked newLine (atTop (pp ++ [f])) (atTop (dd ++ [js]))
      (withMap newLine script (js ++ ".map".toList)) (atTop (dd ++ [js ++ ".map".toList]))
      document := by
  have hmap := hsib.map.1
  have hdir : ∀ x, Ordinary x → dirName (atTop (dd ++ [x])) = some (atTop dd) := fun x hx =>
    dirName_atTop (List.forall_mem_append.2 ⟨isSegment_all hdd,
      List.forall_mem_singleton.2 hx.toIsSegment⟩)
  exact ⟨⟨_, _, hdir js hsib.script.1, namesMap_withMap _ _ hmap.slash, combine_segment hdd hmap⟩,
    ⟨_, r, hdir _ hmap, hr, hsource⟩⟩

/-! ## Units -/

theorem unitArtifacts_eq {cwd : Path} (settings : Settings) (hc : FromTop cwd)
    (hm : settings.mapSources = true) (u : SourceUnit) {pp : List Text} {f js : Text}
    (hsib : Siblings f js) (hpp : ∀ s ∈ pp, Ordinary s) (hu : u.path = atTop (pp ++ [f]))
    (hjs : replaceExtension u.path ".js" = atTop (pp ++ [js])) :
    ∃ script mappings, unitArtifacts settings (fun p => resolve cwd [p]) u =
      [⟨atTop (pp ++ [js]), withMap settings.newLine.text script (js ++ ".map".toList),
          !u.mark.isNone⟩,
        ⟨atTop (pp ++ [js ++ ".map".toList]), (MapDocument.of js [f] mappings).text, false⟩] := by
  have hname : ∀ x, Ordinary x → baseName (atTop (pp ++ [x])) = x := fun x hx =>
    baseName_atTop pp hx.toIsSegment
  have hmapName : atTop (pp ++ [js]) ++ ".map".toList = atTop (pp ++ [js ++ ".map".toList]) := by
    obtain ⟨front, -, hfront⟩ := exists_front pp
    rw [atTop, atTop, hfront, hfront]
    simp
  have habs : resolve cwd [replaceExtension u.path ".js"] = atTop (pp ++ [js]) := by
    rw [hjs, resolve_atTop hc (List.forall_mem_append.2
      ⟨hpp, List.forall_mem_singleton.2 hsib.script.1⟩)]
  refine ⟨scriptText settings.newLine (Text.lines u.text),
    lineMappings (origins 0 (Text.lines u.text)), ?_⟩
  rw [unitArtifacts, scriptArtifacts, if_pos hm, habs]
  simp only [hmapName, hname _ hsib.script.1, hname _ hsib.map.1, hu, hname _ hsib.source.1]

theorem infix_artifacts {settings : Settings} (absolute : Path → Path) {units : List SourceUnit}
    {u : SourceUnit} (ho : settings.outFile = none) (hu : u ∈ units)
    (hd : u.isDeclaration = false) :
    unitArtifacts settings absolute u <:+:
      (passThroughPhase settings absolute units .emit).artifacts := by
  show _ <:+: artifacts settings absolute units
  have hmem : u ∈ units.filter fun u => !u.isDeclaration := List.mem_filter.2 ⟨hu, by simp [hd]⟩
  obtain ⟨before, after, he⟩ := List.append_of_mem hmem
  rw [artifacts, ho]
  simp only [he, List.flatMap_append, List.flatMap_cons]
  exact ⟨_, _, List.append_assoc _ _ _⟩

theorem segments_of_unit {cwd p : Path} (hc : FromTop cwd) (hn : normalize p = p)
    (hb : Below (normalize cwd) p) (hd : DriveFree p) :
    ∃ init f, (∀ s ∈ land [] cwd ++ init ++ [f], Ordinary s ∧ isDrive s = false) ∧
      p = atTop (land [] cwd ++ init ++ [f]) := by
  obtain ⟨ss, hss, hp⟩ := hb
  have hcwd := ordinary_land_top hc
  rw [normalize_of_top hc, of_atTop (isSegment_all hcwd)] at hp
  have hhead := head?_of_cutRoot (congrArg Parts.root hp)
  have htop : FromTop p := by
    cases p with
    | nil => cases hhead
    | cons c t =>
      cases hhead
      rfl
  have hland := ordinary_land_top htop
  have hseg : ∀ s ∈ land [] p, IsSegment s := isSegment_all hland
  rw [normalize_of_top htop] at hn
  rw [← hn, of_atTop hseg] at hp
  have he : land [] p = land [] cwd ++ ss := congrArg Parts.segments hp
  have hfree := (driveFree_atTop hseg).1 (hn.symm ▸ hd)
  rw [he] at hland hfree hn
  refine ⟨ss.dropLast, ss.getLast hss, ?_, ?_⟩
  · rw [List.append_assoc, List.dropLast_concat_getLast hss]
    exact fun s hm => ⟨hland s hm, hfree s hm⟩
  · rw [List.append_assoc, List.dropLast_concat_getLast hss, hn]

/-- A source below the working directory has a script and a map. They are accepted together, and
where they are placed the script finds the map, and the map its source. -/
theorem placed_map_finds_source (cwd : Path) (options : Options) (goal : Option Path)
    (hc : FromTop cwd) (hgoal : ∀ directory ∈ goal, DriveFree directory)
    (hs : (Configuration.resolve cwd options goal).singleOutput = false)
    (hm : (Configuration.resolve cwd options goal).sourceMap = true) (units : List SourceUnit)
    (u : SourceUnit) (hu : u ∈ units) (hdecl : u.isDeclaration = false)
    (hn : normalize u.path = u.path) (hb : Below (normalize cwd) u.path) (hd : DriveFree u.path) :
    let c := Configuration.resolve cwd options goal
    let absolute := fun p => resolve cwd [p]
    ∃ script map, unitArtifacts c.settings absolute u = [script, map] ∧
      [script, map] <:+: (passThroughPhase c.settings absolute units .emit).artifacts ∧
      ((∃ s, destination cwd c script.name = .ok s) ↔ ∃ m, destination cwd c map.name = .ok m) ∧
      ∀ s m, destination cwd c script.name = .ok s → destination cwd c map.name = .ok m →
        StaysOut map.name (absolute m) →
        ∃ text document, placedText cwd c script.name s script.text = .ok text ∧
          placedText cwd c map.name m map.text = .ok document ∧
          Linked c.newLine.text u.path (absolute s) text (absolute m) document := by
  intro c absolute
  obtain ⟨init, f, hfile, hpath⟩ := segments_of_unit hc hn hb hd
  obtain ⟨hpp, hf⟩ := List.forall_mem_append.1 hfile
  obtain ⟨hf, hfd⟩ := List.forall_mem_singleton.1 hf
  have htogether := together_resolve hc (List.forall_mem_append.1 hpp).2 options hgoal hs
  generalize land [] cwd ++ init = pp at *
  obtain ⟨js, hsib, hjs⟩ := exists_siblings pp hf hfd
  obtain ⟨body, mappings, hunit⟩ := unitArtifacts_eq c.settings hc hm u hsib
    (fun s hm => (hpp s hm).1) hpath (hpath ▸ hjs)
  have hout : c.settings.outFile = none := if_neg (Bool.eq_false_iff.1 hs)
  have hinfix := infix_artifacts absolute hout hu hdecl
  rw [hunit] at hinfix
  refine ⟨_, _, hunit, hinfix, ?_⟩
  rcases htogether with hreject | ⟨dd, hdd, hnone, hok⟩
  · obtain ⟨e₁, h₁⟩ := hreject js hsib.script
    obtain ⟨e₂, h₂⟩ := hreject _ hsib.map
    refine ⟨⟨fun ⟨s, h⟩ => ?_, fun ⟨m, h⟩ => ?_⟩, fun s m h => ?_⟩
    · cases h₁.symm.trans h
    · cases h₂.symm.trans h
    · cases h₁.symm.trans h
  · have h₁ := hok js hsib.script
    have h₂ := hok _ hsib.map
    refine ⟨⟨fun _ => ⟨_, h₂⟩, fun _ => ⟨_, h₁⟩⟩, fun s m hs' hm' hout => ?_⟩
    obtain rfl := Except.ok.inj (h₁.symm.trans hs')
    obtain rfl := Except.ok.inj (h₂.symm.trans hm')
    have habs : ∀ x, Ordinary x → absolute (atTop (dd ++ [x])) = atTop (dd ++ [x]) := fun x hx =>
      resolve_atTop hc (List.forall_mem_append.2 ⟨hdd, List.forall_mem_singleton.2 hx⟩)
    rw [habs _ hsib.map.1] at hout ⊢
    rw [habs _ hsib.script.1]
    obtain ⟨document, r, hplaced, hr, hsource⟩ := placedText_map hc hs hsib hdd hpp hnone hout
      (m := MapDocument.of js [f] mappings) (show 3 ≤ Json.maxSignificand by decide) rfl
    rw [hpath]
    exact ⟨_, document, placedText_script cwd c _ _ (suffix_atTop pp hsib.ending), hplaced,
      linked_of_directory _ body hsib hdd hr hsource⟩

/-- A source two directories down, its script and its map, the last two moved to another tree. -/
theorem placed_map_finds_source_dist : ∃ text document,
    Linked ['\n'] "/work/src/app/a.ts".toList "/work/dist/app/a.js".toList text
      "/work/dist/app/a.js.map".toList document := by
  let options := { Options.unset with basePath := some "src".toList, sourceMap := some true }
  let u : SourceUnit := ⟨"/work/src/app/a.ts".toList, "let a;\n".toList, .none, []⟩
  obtain ⟨script, map, hunit, -, -, h⟩ := placed_map_finds_source "/work".toList options
    (some "out/../dist".toList) (by decide) (by rintro _ ⟨⟩; decide) (by decide) (by decide)
    [u] u (by simp) (by decide) (by decide)
    ⟨["src".toList, "app".toList, "a.ts".toList], by decide, by decide⟩ (by decide)
  have hnames : [script.name, map.name] =
      ["/work/src/app/a.js".toList, "/work/src/app/a.js.map".toList] :=
    (congrArg (List.map Artifact.name) hunit).symm.trans (by decide +kernel)
  have hout : StaysOut map.name "/work/dist/app/a.js.map".toList := by
    have hdir : dirName "/work/dist/app/a.js.map".toList = some "/work/dist/app".toList := by decide
    have hanc : ancestors "/work/dist/app".toList =
        ["/work/dist".toList, "/work".toList, "/".toList] := by cbv
    intro directory hd
    obtain rfl := Option.some.inj (hdir.symm.trans hd)
    rw [(List.cons.inj (List.cons.inj hnames).2).1, hanc]
    decide
  obtain ⟨text, document, -, -, hlinked⟩ :=
    h "/work/dist/app/a.js".toList "/work/dist/app/a.js.map".toList
      (by rw [(List.cons.inj hnames).1]; decide)
      (by rw [(List.cons.inj (List.cons.inj hnames).2).1]; decide) hout
  exact ⟨text, document, hlinked⟩

end BatchCompile
