import BatchCompile.Mapping.Relocation
import BatchCompile.Proofs.Path.Ways

/-!
# The layout of a destination directory

A file below the working directory keeps its way from there below the destination, less the
segments of the base path (`destination_eq_ok_iff`). So nothing is placed outside the
destination, and no two files are placed at one path (`destination_layout`).
-/

namespace BatchCompile

open BatchCompile.Path

/-! ## Names that stay -/

theorem destination_of_none {cwd : Path} {c : Configuration} (h : c.destination = none)
    (name : Path) : destination cwd c name = .ok name := by
  unfold destination
  split
  · rename_i heq
    rw [h] at heq
    cases heq
  · rfl

theorem destination_of_singleOutput {cwd : Path} {c : Configuration} (h : c.singleOutput = true)
    (name : Path) : destination cwd c name = .ok name := by
  unfold destination
  rw [h]

/-! ## Base paths -/

/-- A base path takes these segments off the front of a way. -/
def TakesOff (base : Option Path) (bs : List Text) : Prop :=
  match base with
  | none => bs = []
  | some b => bs ≠ [] ∧ b = Text.join ['/'] bs ++ ['/']

def baseSegments (base : Option Path) : List Text :=
  base.elim [] fun b => (Parts.of b).segments

theorem exists_asBase (p : Path) : ∃ start, Configuration.asBase p = start ++ ['/'] := by
  unfold Configuration.asBase
  simp only
  split
  · rename_i h
    exact List.getLast?_eq_some_iff.1 h
  · exact ⟨_, rfl⟩

theorem TakesOff.eq_baseSegments {base : Option Path} {bs : List Text} (h : TakesOff base bs)
    (hs : ∀ s ∈ bs, IsSegment s ∧ isDrive s = false) : bs = baseSegments base := by
  match base, h with
  | none, h => exact h
  | some b, h =>
    obtain ⟨hne, rfl⟩ := h
    obtain ⟨s, ss, rfl⟩ := List.exists_cons_of_ne_nil hne
    have hs' : ∀ u ∈ s :: ss, IsSegment u := fun u hu => (hs u hu).1
    have hhead : (Text.join ['/'] (s :: ss) ++ ['/']).head? ≠ some '/' := by
      have hstart : (Text.join ['/'] (s :: ss)).head? ≠ some '/' :=
        head?_join (hs' s List.mem_cons_self)
      cases hj : Text.join ['/'] (s :: ss) with
      | nil =>
        have hempty := segmentsOf_join hs'
        rw [hj] at hempty
        cases hempty
      | cons c t =>
        rw [hj] at hstart
        exact hstart
    have hdrive : isDrive (Text.join ['/'] (s :: ss) ++ ['/']) = false := by
      rw [isDrive_append_slash, isDrive_join]
      exact (hs s List.mem_cons_self).2
    rw [baseSegments, Option.elim, partsOf_eq, cutRoot_here hhead hdrive, segmentsOf_append_slash,
      segmentsOf_join hs', segmentsOf_nil, List.append_nil]

/-! ## Places below the destination -/

/-- Artifacts go below a directory, each to a place of its own. -/
structure Directed (c : Configuration) (directory : Path) : Prop where
  single : c.singleOutput = false
  destination : c.destination = some (normalize directory)
  base : ∀ b, c.basePath = some b → ∃ start, b = start ++ ['/']

theorem directed_resolve {cwd directory : Path} {options : Options} (h : directory ≠ [])
    (hs : (Configuration.resolve cwd options (some directory)).singleOutput = false) :
    Directed (Configuration.resolve cwd options (some directory)) directory where
  single := hs
  destination := by simp [Configuration.resolve, Configuration.nonempty, h]
  base b hb := by
    obtain ⟨p, -, rfl⟩ := Option.map_eq_some_iff.1 hb
    exact exists_asBase p

section

variable {cwd directory : Path} (hc : FromTop cwd) (hd : DriveFree directory)

include hc

theorem isDrive_forward_of_fromTop : isDrive (forward cwd) = false := by
  obtain ⟨t, ht⟩ := hc.forward_eq
  rw [ht, isDrive_slash]

theorem land_cwd (place : List Text) : land place cwd = land [] cwd := by
  obtain ⟨t, ht⟩ := hc.forward_eq
  rw [land_of_top _ ht, land_of_top _ ht]

theorem resolve_cwd : resolve cwd [cwd] = atTop (land [] cwd) := by
  rw [resolve_eq hc (by simpa using isDrive_forward_of_fromTop hc), List.foldl_cons, List.foldl_nil,
    land_cwd hc]

include hd

theorem resolve_directory {rs : List Text} (hr : ∀ s ∈ rs, Ordinary s ∧ isDrive s = false) :
    resolve cwd [cwd, normalize directory, Text.join ['/'] rs] =
      atTop (land (land [] cwd) directory ++ rs) := by
  have hseg := free_all hr
  have hrest : isDrive (forward (Text.join ['/'] rs)) = false := by
    rw [forward_join fun s hm => (hseg s hm).1]
    cases rs with
    | nil => rfl
    | cons r rs => exact (isDrive_join r rs).trans (hr r List.mem_cons_self).2
  rw [resolve_eq hc (by simp [isDrive_forward_of_fromTop hc, hd.isDrive_normalize, hrest])]
  simp only [List.foldl_cons, List.foldl_nil]
  rw [land_cwd hc, land_normalize _ hd, land_join _ hseg, settle_ordinary _ fun s hm => (hr s hm).1]

/-- A file below the working directory is placed below the destination if the base path comes off
the front of its way and leaves something of it. -/
theorem destination_eq_ok_iff {c : Configuration} (h : Directed c directory) {name d : Path}
    {ss : List Text} (hss : ss ≠ []) (ho : ∀ s ∈ ss, Ordinary s ∧ isDrive s = false)
    (hn : resolve cwd [name] = atTop (land [] cwd ++ ss)) :
    destination cwd c name = .ok d ↔ ∃ bs rs, ss = bs ++ rs ∧ rs ≠ [] ∧ TakesOff c.basePath bs ∧
      d = atTop (land (land [] cwd) directory ++ rs) := by
  have hplace := ordinary_land_top hc
  have hway : relative (resolve cwd [cwd]) (resolve cwd [name]) = Text.join ['/'] ss := by
    have hfile := List.forall_mem_append.2 ⟨hplace, fun s hm => (ho s hm).1⟩
    rw [resolve_cwd hc, hn, relative_atTop hplace hfile (by simpa using hss), way_append]
  unfold destination
  rw [h.single, h.destination]
  simp only [hway]
  cases hb : c.basePath with
  | none =>
    simp only [TakesOff, Except.ok.injEq, resolve_directory hc hd ho]
    constructor
    · rintro rfl
      exact ⟨[], ss, rfl, hss, rfl, rfl⟩
    · rintro ⟨_, rs, rfl, -, rfl, rfl⟩
      rfl
  | some b =>
    obtain ⟨start, rfl⟩ := h.base b hb
    have hslash : ∀ s ∈ ss, '/' ∉ s := fun s hm => (ho s hm).1.slash
    simp only [TakesOff]
    constructor
    · intro hok
      cases hdrop : (start ++ ['/']).isPrefixOf? (Text.join ['/'] ss) with
      | none => simp [hdrop] at hok
      | some rest =>
        obtain ⟨bs, rs, hbs, hrs, rfl, rfl, rfl⟩ := (Text.isPrefixOf?_join hss hslash).1 hdrop
        have hrest := resolve_directory hc hd fun s hm => ho s (List.mem_append_right bs hm)
        simp only [hdrop, hrest, Except.ok.injEq] at hok
        exact ⟨bs, rs, rfl, hrs, ⟨hbs, rfl⟩, hok.symm⟩
    · rintro ⟨bs, rs, rfl, hrs, ⟨hbs, hstart⟩, rfl⟩
      obtain rfl := List.append_cancel_right hstart
      have hdrop : (Text.join ['/'] bs ++ ['/']).isPrefixOf? (Text.join ['/'] (bs ++ rs)) =
          some (Text.join ['/'] rs) :=
        (Text.isPrefixOf?_join hss hslash).2 ⟨bs, rs, hbs, hrs, rfl, rfl, rfl⟩
      have hrest := resolve_directory hc hd fun s hm => ho s (List.mem_append_right bs hm)
      simp only [hdrop, hrest]

end

/-! ## The layout -/

/-- A name of a file below the working directory, with no drive on the way. -/
structure Inside (cwd name : Path) : Prop where
  below : Below (normalize cwd) (resolve cwd [name])
  driveFree : DriveFree (resolve cwd [name])

theorem Inside.segments {cwd name : Path} (hc : FromTop cwd) (h : Inside cwd name) :
    ∃ ss, ss ≠ [] ∧ (∀ s ∈ ss, Ordinary s ∧ isDrive s = false) ∧
      resolve cwd [name] = atTop (land [] cwd ++ ss) := by
  obtain ⟨ss, hss, ho, -, hr⟩ := resolve_of_below hc h.below
  have hall := List.forall_mem_append.2 ⟨ordinary_land_top hc, ho⟩
  have hfree := (driveFree_atTop (isSegment_all hall)).1 (hr ▸ h.driveFree)
  exact ⟨ss, hss, fun s hm => ⟨ho s hm, hfree s (List.mem_append_right _ hm)⟩, hr⟩

/-- A path below the destination that ends like the way of a file from the working directory: that
way is the base path and then `rest`, and the path is the destination and then `rest`. -/
structure LaidOut (cwd directory : Path) (base : Option Path) (name d : Path) : Prop where
  normal : normalize d = d
  below : Below (resolve cwd [directory]) d
  rest : ∃ rest, rest ≠ [] ∧ (∀ s ∈ rest, Ordinary s) ∧
    Parts.of d = ⟨.top, (Parts.of (resolve cwd [directory])).segments ++ rest⟩ ∧
    Parts.of (relative (normalize cwd) (resolve cwd [name])) = ⟨.here, baseSegments base ++ rest⟩

section

variable {cwd directory : Path} (hc : FromTop cwd) (hd : DriveFree directory)
  {c : Configuration} (h : Directed c directory)

include hc hd h

theorem laidOut_of_destination {name d : Path} (hin : Inside cwd name)
    (hok : destination cwd c name = .ok d) : LaidOut cwd directory c.basePath name d := by
  have hplace := ordinary_land_top hc
  have hgoal := ordinary_land hplace hd.isDrive_forward
  have hresolve : resolve cwd [directory] = atTop (land (land [] cwd) directory) :=
    resolve_eq hc (by simpa using hd.isDrive_forward)
  have hparts : Parts.of (resolve cwd [directory]) = ⟨.top, land (land [] cwd) directory⟩ := by
    rw [hresolve, of_atTop (isSegment_all hgoal)]
  obtain ⟨ss, hss, ho, hr⟩ := hin.segments hc
  obtain ⟨bs, rs, rfl, hrs, hb, rfl⟩ := (destination_eq_ok_iff hc hd h hss ho hr).1 hok
  have hrest : ∀ s ∈ rs, Ordinary s := fun s hm => (ho s (List.mem_append_right bs hm)).1
  have hfile := List.forall_mem_append.2 ⟨hplace, fun s hm => (ho s hm).1⟩
  have hall := List.forall_mem_append.2 ⟨hgoal, hrest⟩
  have hd' := of_atTop (isSegment_all hall)
  have hway : relative (normalize cwd) (resolve cwd [name]) = Text.join ['/'] (bs ++ rs) := by
    rw [normalize_of_top hc, hr, relative_atTop hplace hfile (by simpa using hss), way_append]
  refine ⟨normalize_atTop hall, ⟨rs, hrs, by rw [hparts, hd']⟩, rs, hrs, hrest, ?_, ?_⟩
  · rw [hparts, hd']
  · have hbs := hb.eq_baseSegments (free_all fun s hm => ho s (List.mem_append_left rs hm))
    rw [hway, of_join (free_all ho), ← hbs]

/-- What is placed at one path was one file. -/
theorem resolve_eq_of_destination {name name' d : Path} (hin : Inside cwd name)
    (hin' : Inside cwd name') (hok : destination cwd c name = .ok d)
    (hok' : destination cwd c name' = .ok d) : resolve cwd [name] = resolve cwd [name'] := by
  have hgoal := ordinary_land (ordinary_land_top hc) hd.isDrive_forward
  obtain ⟨ss, hss, ho, hr⟩ := hin.segments hc
  obtain ⟨ss', hss', ho', hr'⟩ := hin'.segments hc
  obtain ⟨bs, rs, rfl, -, hb, rfl⟩ := (destination_eq_ok_iff hc hd h hss ho hr).1 hok
  obtain ⟨bs', rs', rfl, -, hb', he⟩ := (destination_eq_ok_iff hc hd h hss' ho' hr').1 hok'
  have hbs : bs = bs' := by
    rw [hb.eq_baseSegments (free_all fun s hm => ho s (List.mem_append_left rs hm)),
      hb'.eq_baseSegments (free_all fun s hm => ho' s (List.mem_append_left rs' hm))]
  have hall := List.forall_mem_append.2
    ⟨hgoal, fun s hm => (ho s (List.mem_append_right bs hm)).1⟩
  have hall' := List.forall_mem_append.2
    ⟨hgoal, fun s hm => (ho' s (List.mem_append_right bs' hm)).1⟩
  have hrs : rs = rs' :=
    List.append_cancel_left (atTop_inj (isSegment_all hall) (isSegment_all hall') he)
  rw [hr, hr', hbs, hrs]

end

/-- Every file from below the working directory that is accepted is laid out below the
destination, and two files are never laid out at one path. -/
theorem destination_layout (cwd directory : Path) (options : Options) (hc : FromTop cwd)
    (hne : directory ≠ []) (hd : DriveFree directory)
    (hs : (Configuration.resolve cwd options (some directory)).singleOutput = false) :
    let c := Configuration.resolve cwd options (some directory)
    (∀ name d, Inside cwd name → destination cwd c name = .ok d →
      LaidOut cwd directory c.basePath name d) ∧
    ∀ name name' d, Inside cwd name → Inside cwd name' → destination cwd c name = .ok d →
      destination cwd c name' = .ok d → resolve cwd [name] = resolve cwd [name'] := by
  intro c
  have hdir : Directed c directory := directed_resolve hne hs
  constructor
  · intro name d hin hok
    exact laidOut_of_destination hc hd hdir hin hok
  · intro name name' d hin hin' hok hok'
    exact resolve_eq_of_destination hc hd hdir hin hin' hok hok'

/-- The way up in the destination and in the name is gone from where the file goes. -/
theorem destination_layout_dist :
    LaidOut "/work".toList "out/../dist".toList (some "src/".toList) "src/x/../app/a.js".toList
      "/work/dist/app/a.js".toList :=
  (destination_layout "/work".toList "out/../dist".toList
    { Options.unset with basePath := some "./src".toList } (by decide) (by decide) (by decide)
    (by decide)).1 "src/x/../app/a.js".toList "/work/dist/app/a.js".toList
    ⟨⟨["src".toList, "app".toList, "a.js".toList], by decide, by decide⟩, by decide⟩ (by decide)

end BatchCompile
