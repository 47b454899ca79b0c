import BatchCompile.Mapping.Document
import BatchCompile.Mapping.Relocation
import BatchCompile.Proofs.Json.Values

/-!
# Relocated maps

A map that was written is read as it was, so relocating it replaces its sources and writes all
else as before (`relocate_text`), and the map that is written then has all other members as they
were (`relocate_document`).
-/

namespace BatchCompile

namespace Json

theorem member?_setMember (name other : Text) (v : Value) (members : List (Text × Value)) :
    member? name (setMember other v members) =
      if name = other then some v else member? name members := by
  induction members with
  | nil =>
    by_cases h : name = other
    · simp [setMember, member?, h]
    · simp [setMember, member?, h, Ne.symm h]
  | cons m members ih =>
    rw [setMember]
    unfold member? at ih ⊢
    by_cases hm : m.1 = other
    · rw [if_pos hm, List.find?_cons, List.find?_cons, hm]
      by_cases h : name = other
      · simp [h]
      · simp [h, Ne.symm h]
    · rw [if_neg hm, List.find?_cons, List.find?_cons]
      by_cases h : m.1 = name
      · simp [h, show name ≠ other from h ▸ hm]
      · simpa [h] using ih

theorem names_setMember {other : Text} (v : Value) {members : List (Text × Value)}
    (h : other ∈ members.map Prod.fst) :
    (setMember other v members).map Prod.fst = members.map Prod.fst := by
  induction members with
  | nil => cases h
  | cons m members ih =>
    rw [setMember]
    split
    · rename_i hm
      rw [List.map_cons, List.map_cons, hm]
    · rename_i hm
      rw [List.map_cons, List.map_cons, ih ((List.mem_cons.1 h).resolve_left (Ne.symm hm))]

end Json

/-- The document lists one source, this one. -/
def SingleSource (document source : Text) : Prop :=
  ∃ members, Json.Value.read document = .ok (.object members) ∧
    Json.member? "sources" members = some (.array [.string source])

namespace MapDocument

variable {m : MapDocument}

theorem reads_value (h : m.version ≤ Json.maxSignificand) : Json.Reads Json.maxDepth m.value := by
  have hstrings : ∀ (room : Nat) (ts : List Text),
      Json.Reads (room + 1) (.array (ts.map .string)) := by
    intro room ts
    refine Json.reads_array fun v hv => ?_
    obtain ⟨t, -, rfl⟩ := List.mem_map.1 hv
    exact Json.reads_string room t
  show Json.Reads (126 + 1) (.object _)
  refine Json.reads_object ?_ (by simp only [List.map]; decide)
  intro member hm
  simp only [List.mem_cons, List.not_mem_nil, or_false] at hm
  rcases hm with rfl | rfl | rfl | rfl | rfl | rfl
  · exact Json.reads_natural _ h
  · exact Json.reads_string _ _
  · exact Json.reads_string _ _
  · exact hstrings 125 _
  · exact hstrings 125 _
  · exact Json.reads_string _ _

theorem read_text (h : m.version ≤ Json.maxSignificand) : Json.Value.read m.text = .ok m.value :=
  Json.read_text (reads_value h)

theorem singleSource_text (h : m.version ≤ Json.maxSignificand) {source : Text}
    (hs : m.sources = [source]) : SingleSource m.text source := by
  refine ⟨_, read_text h, ?_⟩
  rw [hs]
  rfl

/-- Relocating a map puts the name of its first source below the directory, and drops the
others. -/
theorem relocate_text (h : m.version ≤ Json.maxSignificand) {first : Text} {others : List Text}
    (hs : m.sources = first :: others) (directory : Path) :
    relocate m.text directory =
      .ok { m with sources := [Path.combine directory (Path.baseName first)] }.text := by
  rw [relocate, read_text h, value, hs]
  rfl

theorem relocate_of_none (h : m.version ≤ Json.maxSignificand) (hs : m.sources = [])
    (directory : Path) : relocate m.text directory = .ok m.text := by
  rw [relocate, read_text h, value, hs]
  rfl

/-- A map as an object; other sources are another member of it. -/
theorem exists_members (m : MapDocument) : ∃ members, m.value = .object members ∧
    "sources".toList ∈ members.map Prod.fst ∧ ∀ sources : List Text,
      { m with sources }.value =
        .object (Json.setMember "sources" (.array (sources.map .string)) members) :=
  ⟨_, rfl, by simp only [List.map]; decide, fun _ => rfl⟩

end MapDocument

/-- A map whose version fits in a word is relocated to the text of a map: one without sources to what
it was, and any other to the same map with its first source below the directory, and no other source.
The members of that map stand in their old order, and all but the sources have their old values. -/
theorem relocate_document (m : MapDocument) (h : m.version < UInt32.size) (directory : Path) :
    (m.sources = [] → relocate m.text directory = .ok m.text) ∧
      ∀ first others, m.sources = first :: others →
        let source := Path.combine directory (Path.baseName first)
        let moved := { m with sources := [source] }
        relocate m.text directory = .ok moved.text ∧
          ∃ members members', Json.Value.read m.text = .ok (.object members) ∧
            Json.Value.read moved.text = .ok (.object members') ∧
            members'.map Prod.fst = members.map Prod.fst ∧
            Json.member? "sources" members' = some (.array [.string source]) ∧
            ∀ name : Text, name ≠ "sources" →
              Json.member? name members' = Json.member? name members := by
  have hfits : m.version ≤ Json.maxSignificand := by
    have : UInt32.size ≤ Json.maxSignificand := by decide
    omega
  refine ⟨fun hs => MapDocument.relocate_of_none hfits hs directory, fun first others hs => ?_⟩
  intro source moved
  obtain ⟨members, hm, hnames, hset⟩ := m.exists_members
  have hmoved : moved.value = _ := hset [source]
  refine ⟨MapDocument.relocate_text hfits hs directory, members, _,
    hm ▸ MapDocument.read_text hfits, hmoved ▸ MapDocument.read_text (m := moved) hfits,
    Json.names_setMember _ hnames, ?_, fun name hname => ?_⟩
  · rw [Json.member?_setMember, if_pos rfl]
    rfl
  · rw [Json.member?_setMember, if_neg hname]

/-- A map of two sources, with a quote and a control character in its texts. -/
theorem relocate_document_two :
    let m : MapDocument := ⟨3, "a\"\x01.js".toList, "é".toList,
      ["../lib/x.ts".toList, "y.ts".toList], ["n\n".toList], "AAAA".toList⟩
    m.version < UInt32.size ∧ relocate m.text "../../src".toList =
      .ok { m with sources := ["../../src/x.ts".toList] }.text := by
  intro m
  have hversion : m.version < UInt32.size := by decide
  have hsource : Path.combine "../../src".toList (Path.baseName "../lib/x.ts".toList) =
      "../../src/x.ts".toList := by decide
  refine ⟨hversion, ?_⟩
  rw [((relocate_document m hversion _).2 _ _ rfl).1, hsource]

end BatchCompile
