import BatchCompile.Proofs.Mapping.Decoded
import BatchCompile.Proofs.Placement.Bundles
import BatchCompile.Proofs.Placement.Names
import BatchCompile.Proofs.Text.Cuts

/-!
# The line that names a map

With maps, a script ends in a line that names its map. That line comes behind the lines of the
sources, but it takes the place of a last one that is blank (`withMap_join`): nothing tells the end
of such a line from the end of the line before it. So maps add a line, and map every other line to
the source line that it is, exactly if the last line of the sources is not blank and the name of the
map fits on one line (`artifacts_with_maps`).
-/

namespace BatchCompile

/-! ## Scripts cut into lines -/

theorem NewLine.exists_text (n : NewLine) : ∃ e, '\n' ∉ e ∧ n.text = e ++ ['\n'] := by
  cases n with
  | lf => exact ⟨[], by decide, rfl⟩
  | crlf => exact ⟨['\r'], by decide, rfl⟩

theorem NewLine.text_ne_nil (n : NewLine) : n.text ≠ [] := by
  cases n <;> exact List.cons_ne_nil _ _

theorem lineFeed_notMem_linesOfUnits (units : List SourceUnit) :
    ∀ line ∈ linesOfUnits units, '\n' ∉ line := by
  intro line hline
  obtain ⟨u, -, hline⟩ := List.mem_flatMap.1 hline
  exact Text.lineFeed_notMem_of_mem_lines hline

/-- Lines that are joined end in a line end, or in nothing at all, if the last one is blank or there
is none. -/
theorem ended_join_iff (newLine : NewLine) {lines : List Text} (h : ∀ line ∈ lines, '\n' ∉ line) :
    ((Text.join newLine.text lines).isEmpty ||
        newLine.text.isSuffixOf (Text.join newLine.text lines)) = true ↔
      lines = [] ∨ lines.getLast? = some [] := by
  rw [Bool.or_eq_true, List.isEmpty_iff, List.isSuffixOf_iff_suffix]
  rcases List.eq_nil_or_concat' lines with rfl | ⟨before, last, rfl⟩
  · simp
  by_cases hlast : last = []
  · subst hlast
    refine iff_of_true ?_ (.inr List.getLast?_concat)
    by_cases hnone : before = []
    · subst hnone
      exact .inl rfl
    · rw [Text.join_append _ hnone (List.cons_ne_nil _ _), Text.join_singleton, List.append_nil]
      exact .inr (List.suffix_append _ _)
  · obtain ⟨front, c, rfl⟩ := (List.eq_nil_or_concat' last).resolve_left hlast
    have hc : c ≠ '\n' := fun hc => h _ (List.mem_append_right _ List.mem_cons_self) (by simp [hc])
    obtain ⟨a, ha⟩ := Path.suffix_join_concat newLine.text before (front ++ [c])
    obtain ⟨e, -, he⟩ := newLine.exists_text
    rw [← ha]
    refine iff_of_false ?_ (by simp)
    rintro (hnil | ⟨b, hb⟩)
    · simp at hnil
    · -- the last character is one of a line
      have := congrArg List.getLast? hb
      rw [he] at this
      simp at this
      exact hc this.symm

def linesBeforeMap (lines : List Text) : List Text :=
  if lines.getLast? = some [] then lines.dropLast else lines

/-- The line that names a map comes behind the lines of a script, or in place of a blank last one.
-/
theorem withMap_join (newLine : NewLine) {lines : List Text} (h : ∀ line ∈ lines, '\n' ∉ line)
    (mapName : Text) :
    withMap newLine.text (Text.join newLine.text lines) mapName =
      Text.join newLine.text (linesBeforeMap lines ++ [mapReference ++ mapName]) := by
  have hended := ended_join_iff newLine h
  unfold withMap linesBeforeMap
  dsimp only
  by_cases hlines : lines = []
  · subst hlines
    simp
  by_cases hlast : lines.getLast? = some []
  · rw [if_pos (hended.2 (.inr hlast)), if_pos hlast]
    obtain ⟨before, rfl⟩ := List.getLast?_eq_some_iff.1 hlast
    rw [List.dropLast_concat]
    by_cases hnone : before = []
    · subst hnone
      simp
    · rw [Text.join_append _ hnone (List.cons_ne_nil _ _),
        Text.join_append _ hnone (List.cons_ne_nil _ _)]
      simp
  · rw [if_neg fun he => (hended.1 he).elim hlines hlast, if_neg hlast,
      Text.join_append _ hlines (List.cons_ne_nil _ _)]
    simp

theorem cutAll_withMap (newLine : NewLine) {lines : List Text} (h : ∀ line ∈ lines, '\n' ∉ line)
    (mapName : Text) :
    Text.cutAll newLine.text (withMap newLine.text (Text.join newLine.text lines) mapName) =
      linesBeforeMap lines ++ Text.cutAll newLine.text (mapReference ++ mapName) := by
  obtain ⟨e, he, hn⟩ := newLine.exists_text
  have hbefore : ∀ line ∈ linesBeforeMap lines, '\n' ∉ line := by
    intro line hline
    unfold linesBeforeMap at hline
    split at hline
    · exact h line (List.dropLast_subset _ hline)
    · exact h line hline
  rw [withMap_join newLine h, hn]
  exact Text.cutAll_join_concat he hbefore _

/-- All lines stay, and one more comes, exactly if the last one is not blank and the new one is not
cut. -/
theorem linesBeforeMap_append_iff (newLine : NewLine) (lines : List Text) (t : Text) :
    linesBeforeMap lines ++ Text.cutAll newLine.text t = lines ++ [t] ↔
      lines.getLast? ≠ some [] ∧ ¬newLine.text <:+: t := by
  rw [← Text.cutAll_eq_self_iff newLine.text_ne_nil, linesBeforeMap]
  by_cases hlast : lines.getLast? = some []
  · obtain ⟨before, rfl⟩ := List.getLast?_eq_some_iff.1 hlast
    rw [if_pos hlast, List.dropLast_concat, List.append_assoc, List.append_cancel_left_eq]
    refine ⟨fun h => ?_, fun h => absurd hlast h.1⟩
    -- pieces that start with an empty one join to a text that starts with a line end
    have hjoin := Text.join_cutAll newLine.text t
    rw [h, List.singleton_append, Text.join_cons _ _ (List.cons_ne_nil _ _), Text.join_singleton] at hjoin
    have := congrArg List.length hjoin
    have := List.length_pos_iff.2 newLine.text_ne_nil
    simp only [List.length_append] at *
    omega
  · rw [if_neg hlast, List.append_cancel_left_eq]
    exact (and_iff_right hlast).symm

/-! ## Scripts and maps -/

theorem IsLine.exists_unit {units : List SourceUnit} {g k l : Nat} (h : IsLine units g k l) :
    ∃ u, units[k]? = some u ∧ l < (Text.lines u.text).length ∧
      (linesOfUnits units)[g]? = (Text.lines u.text)[l]? := by
  obtain ⟨u, hu, hl, rfl⟩ := h
  refine ⟨u, hu, hl, ?_⟩
  obtain ⟨hk, rfl⟩ := List.getElem?_eq_some_iff.1 hu
  have hunits : linesOfUnits units = linesOfUnits (units.take k) ++
      (Text.lines units[k].text ++ linesOfUnits (units.drop (k + 1))) := by
    calc linesOfUnits units
        = linesOfUnits (units.take k ++ units[k] :: units.drop (k + 1)) := by
          rw [← List.drop_eq_getElem_cons hk, List.take_append_drop]
      _ = _ := by rw [linesOfUnits, List.flatMap_append, List.flatMap_cons]; rfl
  rw [hunits, List.getElem?_append_right (Nat.le_add_right _ _), Nat.add_sub_cancel_left,
    List.getElem?_append_left hl]

/-- The units whose lines go into each script. -/
def scriptUnits (settings : Settings) (units : List SourceUnit) : List (List SourceUnit) :=
  let emitted := units.filter fun u => !u.isDeclaration
  match settings.outFile with
  | some _ => [emitted]
  | none => emitted.map fun u => [u]

/-- A script without a map, and the script and its map where there is one. -/
structure Emitted where
  plain : Artifact
  script : Artifact
  map : Artifact

def mapLine (map : Artifact) : Text :=
  mapReference ++ Path.baseName map.name

/-- Cut at its line ends, a script is the lines of some units and one line more. There is a group of
mappings for each of the others, which maps it to the line of a unit that it is. -/
structure AddsLine (newLine : NewLine) (units : List SourceUnit) (script line mappings : Text) :
    Prop where
  lines : Text.cutAll newLine.text script = linesOfUnits units ++ [line]
  groups : (mappingGroups mappings).length + 1 = (Text.cutAll newLine.text script).length
  mapped : ∃ segments, Segment.decode? mappings = some segments ∧
    ∀ g < (mappingGroups mappings).length, ∃ (k l : Nat) (u : SourceUnit),
      segments[g]? = some [⟨0, k, l, 0⟩] ∧ units[k]? = some u ∧ l < (Text.lines u.text).length ∧
      (Text.cutAll newLine.text script)[g]? = (Text.lines u.text)[l]?

/-- What comes of units whose lines go into one script. -/
structure Emits (newLine : NewLine) (units : List SourceUnit) (e : Emitted) : Prop where
  script : e.script.name = e.plain.name ∧ e.script.marked = e.plain.marked
  map : e.map.name = e.plain.name ++ ".map".toList
  plain : e.plain.text = Text.join newLine.text (linesOfUnits units)
  cut : Text.cutAll newLine.text e.script.text =
    linesBeforeMap (linesOfUnits units) ++ Text.cutAll newLine.text (mapLine e.map)
  document : ∃ sources mappings, Documents e.map.text sources mappings ∧
    (mappingGroups mappings).length = (linesOfUnits units).length ∧
    (AddsLine newLine units e.script.text (mapLine e.map) mappings ↔
      (linesOfUnits units).getLast? ≠ some [] ∧ ¬newLine.text <:+: mapLine e.map)

section

variable (settings : Settings) (name : Path) (marked : Bool) (sources : List Path)
  (units : List SourceUnit)

def unitScript : List Artifact :=
  scriptArtifacts settings name marked sources (linesOfUnits units)
    (bundleOrigins 0 (units.map fun u => Text.lines u.text))

theorem unitArtifacts_eq_unitScript (absolute : Path → Path) (u : SourceUnit) :
    unitArtifacts settings absolute u =
      unitScript settings (absolute (Path.replaceExtension u.path ".js")) (!u.mark.isNone)
        [Path.baseName u.path] [u] := by
  simp [unitArtifacts, unitScript, linesOfUnits, bundleOrigins]

/-- A script with a map has the lines of its units and one more unless the last one is blank. -/
theorem addsLine_iff (newLine : NewLine) (mapName : Text) :
    let mappings := lineMappings (bundleOrigins 0 (units.map fun u => Text.lines u.text))
    (mappingGroups mappings).length = (linesOfUnits units).length ∧
      (AddsLine newLine units (withMap newLine.text (Text.join newLine.text (linesOfUnits units)) mapName)
        (mapReference ++ mapName) mappings ↔
      (linesOfUnits units).getLast? ≠ some [] ∧ ¬newLine.text <:+: mapReference ++ mapName) := by
  intro mappings
  have hgroups : (mappingGroups mappings).length = (linesOfUnits units).length := by
    rw [mappingGroups_lineMappings, length_groupsAfter, length_bundleOrigins]
  have hcut := cutAll_withMap newLine (lineFeed_notMem_linesOfUnits units) mapName
  have hiff := linesBeforeMap_append_iff newLine (linesOfUnits units) (mapReference ++ mapName)
  refine ⟨hgroups, fun h => hiff.1 (hcut.symm.trans h.lines), fun h => ?_⟩
  have hlines := hcut.trans (hiff.2 h)
  obtain ⟨segments, hdecode, -, hsingle, hline⟩ := exists_segments_bundle units
  refine ⟨hlines, by rw [hgroups, hlines, List.length_append]; rfl, segments, hdecode, fun g hg => ?_⟩
  rw [hgroups] at hg
  obtain ⟨k, l, hsegment⟩ := hsingle g hg
  obtain ⟨u, hu, hl, htext⟩ := ((hline g k l).1 hsegment).exists_unit
  refine ⟨k, l, u, hsegment, hu, hl, ?_⟩
  rw [hlines, List.getElem?_append_left hg, htext]

theorem exists_emitted : ∃ e, Emits settings.newLine units e ∧
    unitScript { settings with mapSources := false } name marked sources units = [e.plain] ∧
    unitScript { settings with mapSources := true } name marked sources units = [e.script, e.map] := by
  let mapName := name ++ ".map".toList
  let mappings := lineMappings (bundleOrigins 0 (units.map fun u => Text.lines u.text))
  let script := Text.join settings.newLine.text (linesOfUnits units)
  have hscript := addsLine_iff units settings.newLine (Path.baseName mapName)
  have hcut := cutAll_withMap settings.newLine (lineFeed_notMem_linesOfUnits units)
    (Path.baseName mapName)
  exact ⟨⟨⟨name, script, marked⟩,
      ⟨name, withMap settings.newLine.text script (Path.baseName mapName), marked⟩,
      ⟨mapName, (MapDocument.of (Path.baseName name) sources mappings).text, false⟩⟩,
    ⟨⟨rfl, rfl⟩, rfl, rfl, hcut, sources, mappings, documents_of _ _ _, hscript⟩, rfl, rfl⟩

end

theorem exists_emitted_all {newLine : NewLine} {α : Type} {unitsOf : α → List SourceUnit}
    {plain mapped : α → List Artifact}
    (h : ∀ a, ∃ e, Emits newLine (unitsOf a) e ∧ plain a = [e.plain] ∧
      mapped a = [e.script, e.map]) (as : List α) :
    ∃ es : List Emitted, as.flatMap plain = es.map Emitted.plain ∧
      as.flatMap mapped = es.flatMap (fun e => [e.script, e.map]) ∧
      List.Forall₂ (Emits newLine) (as.map unitsOf) es := by
  induction as with
  | nil => exact ⟨[], rfl, rfl, .nil⟩
  | cons a as ih =>
    obtain ⟨e, he, hplain, hmapped⟩ := h a
    obtain ⟨es, hplains, hmaps, hall⟩ := ih
    refine ⟨e :: es, ?_, ?_, .cons he hall⟩
    · rw [List.flatMap_cons, hplain, hplains, List.map_cons, List.singleton_append]
    · rw [List.flatMap_cons, hmapped, hmaps, List.flatMap_cons]

/-- To turn maps on adds to each script the line that names its map, and the map; all else stays.
The script is then the lines of its units and that line, with every other line mapped to the line of
a unit that it is, exactly if the last line of the units is not blank and the new line is not cut.
-/
theorem artifacts_with_maps (settings : Settings) (absolute : Path → Path)
    (units : List SourceUnit) :
    let results mapSources := Engine.passThrough { settings with mapSources } absolute units
    ∃ es : List Emitted,
      (results false).flatMap PhaseResult.artifacts = es.map Emitted.plain ∧
      (results true).flatMap PhaseResult.artifacts = es.flatMap (fun e => [e.script, e.map]) ∧
      List.Forall₂ (Emits settings.newLine) (scriptUnits settings units) es := by
  intro results
  simp only [results, flatMap_passThrough]
  unfold artifacts scriptUnits
  dsimp only
  cases settings.outFile with
  | some out =>
    obtain ⟨e, he, hplain, hmapped⟩ := exists_emitted settings out false _
      (units.filter fun u => !u.isDeclaration)
    exact ⟨[e], hplain, hmapped, .cons he .nil⟩
  | none =>
    refine exists_emitted_all (fun u => ?_) _
    rw [unitArtifacts_eq_unitScript, unitArtifacts_eq_unitScript]
    exact exists_emitted { settings with outFile := none } _ _ _ [u]

def blankEnded : SourceUnit :=
  ⟨"/work/a.ts".toList, "let a;\n\n".toList, .none, []⟩

/-- The line that names the map stands where the blank last line of the source was, so the script
has no more lines than there are groups of mappings. -/
theorem map_line_replaces_blank :
    let settings := { Configuration.default with sourceMap := true }.settings
    let made := artifacts settings (fun p => Path.resolve "/work".toList [p]) [blankEnded]
    ∃ script map mappings, made = [script, map] ∧ Documents map.text ["a.ts".toList] mappings ∧
      (mappingGroups mappings).length = 2 ∧
      Text.cutAll settings.newLine.text script.text = ["let a;".toList, mapLine map] ∧
      ¬AddsLine settings.newLine [blankEnded] script.text (mapLine map) mappings := by
  intro settings made
  have hcut : Text.cutAll ['\n'] "let a;\n//# sourceMappingURL=a.js.map".toList =
      ["let a;".toList, "//# sourceMappingURL=a.js.map".toList] := by decide +kernel
  have hgroups : (mappingGroups "AAAA;AACA".toList).length = 2 := by decide +kernel
  refine ⟨⟨"/work/a.js".toList, "let a;\n//# sourceMappingURL=a.js.map".toList, false⟩,
    ⟨"/work/a.js.map".toList,
      (MapDocument.of "a.js".toList ["a.ts".toList] "AAAA;AACA".toList).text, false⟩,
    "AAAA;AACA".toList, by decide +kernel, documents_of _ _ _, hgroups, hcut, fun h => ?_⟩
  have hcount := h.groups
  rw [hgroups, show Text.cutAll settings.newLine.text _ = _ from hcut] at hcount
  cases hcount

end BatchCompile
