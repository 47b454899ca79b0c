import BatchCompile.Proofs.Closure.Consistent
import BatchCompile.Proofs.Closure.Visits

/-!
# The closure is exact

The resolver finds each file that is reached from the entries, and each missing one, once
(`directives_exact`). It marks a path before it looks at it; nothing is lost by that, because
a file that is marked and not found is still open, and none is open at the end.
-/

namespace BatchCompile

open Walk

/-- The paths reached from the entries: these, and what the files among them ask for. -/
inductive Reach (answers : Services Id) (entries : List Path) : Path → Prop where
  | entry {e : Path} : e ∈ entries → Reach answers entries (answers.resolve e none).run
  | asked {p q : Path} : Reach answers entries p → (answers.fileExists p).run = true →
      q ∈ asked answers p → Reach answers entries q

/-- The resolution of the entries: the files reached, each once, a report of each missing path
reached, and whether a file reached does without the default library. -/
structure Exact (answers : Services Id) (entries : List Path) (r : Resolution) : Prop where
  nodup : r.paths.Nodup
  mem_paths_iff : ∀ p, p ∈ r.paths ↔
    Reach answers entries p ∧ (answers.fileExists p).run = true
  missing : ∃ lost : List Path, lost.Nodup ∧
    (∀ p, p ∈ lost ↔ Reach answers entries p ∧ (answers.fileExists p).run = false) ∧
    List.Forall₂ Diagnostic.Reports r.diagnostics lost
  noLib_iff : r.sawNoDefaultLib = true ↔ ∃ p, Reach answers entries p ∧
    (answers.fileExists p).run = true ∧ (said answers p).noDefaultLib = true

section

variable {answers : Services Id} {entries : List Path} {caseSensitive : Bool}

theorem Reach.mono {entries' : List Path} (h : ∀ e ∈ entries, e ∈ entries') {p : Path}
    (hp : Reach answers entries p) : Reach answers entries' p := by
  induction hp with
  | entry he => exact .entry (h _ he)
  | asked _ he hq ih => exact .asked ih he hq

theorem directives_eq (answers : Services Id) (entries : List Path) (caseSensitive : Bool) :
    (Resolver.directives entries answers caseSensitive).run =
      (visits answers caseSensitive (answers.pathBound.run + 1) none
        (entries.map fun e => (answers.resolve e none).run) Walk.start).found := by
  rw [visits, List.foldl_map]
  exact congrArg Walk.found List.idRun_foldlM

/-- When no file is open and the entries were seen, all that is reached was seen. -/
theorem Walk.Sound.seen_of_reach {lost : List Path} {w : Walk}
    (h : Sound answers caseSensitive (Reach answers entries) [] lost w)
    (he : ∀ e ∈ entries, mark caseSensitive (answers.resolve e none).run ∈ w.visited) {p : Path}
    (hp : Reach answers entries p) : Seen caseSensitive (Reach answers entries) w p := by
  induction hp with
  | entry hm => exact ⟨.entry hm, he _ hm⟩
  | asked hr hex hq ih =>
    have hf := ((h.file_iff _).2 ⟨ih, hex⟩).resolve_right List.not_mem_nil
    exact ⟨.asked hr hex hq, h.closed _ hf _ hq⟩

theorem exact_of_sound {lost : List Path} {w : Walk}
    (h : Sound answers caseSensitive (Reach answers entries) [] lost w)
    (he : ∀ e ∈ entries, mark caseSensitive (answers.resolve e none).run ∈ w.visited) :
    Exact answers entries w.found := by
  have hseen : ∀ p, Seen caseSensitive (Reach answers entries) w p ↔ Reach answers entries p :=
    fun p => ⟨fun hs => hs.1, h.seen_of_reach he⟩
  refine ⟨h.nodup, fun p => ?_, ⟨lost, h.lost_nodup, fun p => ?_, h.reported⟩, ?_⟩
  · rw [← hseen, ← h.file_iff]
    simp
  · rw [← hseen, h.lost_iff]
  · rw [h.noLib_iff]
    exact exists_congr fun p => by rw [hseen]

/-- Over services that only answer, the closure is exact. -/
theorem exact_directives {files : List Path}
    (hfiles : ∀ p, (answers.fileExists p).run = true → p ∈ files)
    (hbound : files.length ≤ answers.pathBound.run)
    (hinj : ∀ p q, Reach answers entries p → Reach answers entries q →
      mark caseSensitive p = mark caseSensitive q → p = q) :
    Exact answers entries (Resolver.directives entries answers caseSensitive).run := by
  rw [directives_eq]
  have hless : unmarked caseSensitive files Walk.start < answers.pathBound.run + 1 :=
    Nat.lt_succ_of_le (Nat.le_trans (unmarked_le_length files _) hbound)
  have hentries : ∀ q ∈ entries.map fun e => (answers.resolve e none).run,
      Reach answers entries q := by
    intro q hq
    obtain ⟨e, he, rfl⟩ := List.mem_map.1 hq
    exact .entry he
  obtain ⟨⟨lost, h⟩, -, hmarks⟩ := onward_visits
    (fun asker p opened lost w hp h hd => onward_visit hinj (fun _ hr he _ hq => .asked hr he hq)
      (fun p _ => hfiles p) asker hp h hd)
    none hentries (sound_start answers caseSensitive _) hless
  exact exact_of_sound h fun e he => hmarks _ (List.mem_map_of_mem he)

/-! ## Missing files -/

theorem fill_fileNotFound (p : Path) :
    fill Message.fileNotFound.template [p] = "File '".toList ++ (p ++ "' not found.".toList) := rfl

theorem Diagnostic.Reports.eq {d : Diagnostic} {p q : Path} (hp : d.Reports p)
    (hq : d.Reports q) : p = q := by
  obtain ⟨_, rfl⟩ := hp
  obtain ⟨_, hd⟩ := hq
  have htext := congrArg Diagnostic.text hd
  simp only [Diagnostic.ofMessage, fill_fileNotFound] at htext
  exact List.append_cancel_right (List.append_cancel_left htext)

theorem mem_of_reported {ds : List Diagnostic} {lost : List Path}
    (h : List.Forall₂ Diagnostic.Reports ds lost) (p : Path) :
    (∃ d ∈ ds, d.Reports p) ↔ p ∈ lost := by
  induction h with
  | nil => simp
  | @cons d q ds lost hq _ ih =>
    have hd : d.Reports p ↔ p = q := ⟨fun hp => hp.eq hq, fun e => e ▸ hq⟩
    rw [List.exists_mem_cons_iff, List.mem_cons, ih, hd]

theorem Exact.reported_iff {r : Resolution} (h : Exact answers entries r) (p : Path) :
    (∃ d ∈ r.diagnostics, d.Reports p) ↔
      Reach answers entries p ∧ (answers.fileExists p).run = false := by
  obtain ⟨lost, -, hlost, hreports⟩ := h.missing
  rw [mem_of_reported hreports, hlost]

/-- Over services that answer consistently, with finitely many files, the closure is exact, if
no two paths reached leave the same mark. The order of the entries and their repetitions change
neither the files found nor the missing ones. -/
theorem directives_exact {σ : Type} {kept : σ → Prop} {services : Services (StateM σ)}
    (hcons : Consistent (.of kept) services answers) {files : List Path}
    (hfiles : ∀ p, (answers.fileExists p).run = true → p ∈ files)
    (hbound : files.length ≤ answers.pathBound.run)
    (hmarks : caseSensitive = false → ∀ p q, Reach answers entries p → Reach answers entries q →
      Text.lowerCase p = Text.lowerCase q → p = q) {s : σ} (hs : kept s) :
    let resolved := fun entries => (Resolver.directives entries services caseSensitive s).1
    Exact answers entries (resolved entries) ∧
      ∀ entries', (∀ e, e ∈ entries' ↔ e ∈ entries) →
        Exact answers entries' (resolved entries') ∧
        (∀ p, p ∈ (resolved entries').paths ↔ p ∈ (resolved entries).paths) ∧
        ∀ p, (∃ d ∈ (resolved entries').diagnostics, d.Reports p) ↔
          ∃ d ∈ (resolved entries).diagnostics, d.Reports p := by
  intro resolved
  have hexact : ∀ entries', (∀ e, e ∈ entries' ↔ e ∈ entries) →
      Exact answers entries' (resolved entries') := by
    intro entries' he
    have hinj : ∀ p q, Reach answers entries' p → Reach answers entries' q →
        mark caseSensitive p = mark caseSensitive q → p = q := by
      intro p q hp hq hmark
      cases caseSensitive with
      | true => exact hmark
      | false =>
        exact hmarks rfl p q (hp.mono fun e => (he e).1) (hq.mono fun e => (he e).1) hmark
    have hgives := (gives_directives hcons entries' caseSensitive s hs).1
    rw [show resolved entries' = _ from hgives]
    exact exact_directives hfiles hbound hinj
  have hsame := hexact entries fun _ => Iff.rfl
  refine ⟨hsame, fun entries' he => ?_⟩
  have hother := hexact entries' he
  have hreach : ∀ p, Reach answers entries' p ↔ Reach answers entries p := fun p =>
    ⟨.mono fun e => (he e).1, .mono fun e => (he e).2⟩
  refine ⟨hother, fun p => ?_, fun p => ?_⟩
  · rw [hother.mem_paths_iff, hsame.mem_paths_iff, hreach]
  · rw [hother.reported_iff, hsame.reported_iff, hreach]

end

/-! ## A cycle with a missing file -/

def Services.ofTable (table : List (Path × Text)) : Services Id where
  fileExists p := table.any fun file => file.1 = p
  directoryExists _ := false
  parentDirectory p := Path.dirName p
  resolve name directory := Path.resolve ['/'] (directory.toList ++ [Path.stripQuotes name])
  sourceText p := ((table.find? fun file => file.1 = p).map fun file => file.2).getD []
  pathBound := table.length

theorem mem_of_fileExists_ofTable {table : List (Path × Text)} {p : Path}
    (h : ((Services.ofTable table).fileExists p).run = true) : p ∈ table.map (·.1) := by
  obtain ⟨file, hf, he⟩ := List.any_eq_true.1 h
  exact List.mem_map.2 ⟨file, hf, by simpa using he⟩

/-- Services that answer so, and count how often they are asked for a text. -/
def Services.counted (answers : Services Id) : Services (StateM Nat) where
  fileExists p := pure (answers.fileExists p).run
  directoryExists p := pure (answers.directoryExists p).run
  parentDirectory p := pure (answers.parentDirectory p).run
  resolve name directory := pure (answers.resolve name directory).run
  sourceText p := do
    modify (· + 1)
    pure (answers.sourceText p).run
  pathBound := pure answers.pathBound.run

theorem consistent_counted (answers : Services Id) :
    Consistent (.of fun _ => True) answers.counted answers where
  fileExists _ _ h := ⟨rfl, h⟩
  parentDirectory _ _ h := ⟨rfl, h⟩
  resolve _ _ _ h := ⟨rfl, h⟩
  sourceText _ _ h := ⟨rfl, h⟩
  pathBound _ h := ⟨rfl, h⟩

/-- Two files that ask for each other; one of them asks for a third, which is missing. -/
def cycle : List (Path × Text) :=
  [("/a.ts".toList, "/// <reference path=\"B.ts\"/>\nimport './c'".toList),
    ("/B.ts".toList, "import './a';".toList)]

theorem mem_of_reach_cycle {p : Path} (h : Reach (.ofTable cycle) ["a.ts".toList] p) :
    p ∈ ["/a.ts".toList, "/B.ts".toList, "/c.ts".toList] := by
  induction h with
  | entry he =>
    rw [List.mem_singleton.1 he]
    decide +kernel
  | asked _ hex hq ih =>
    simp only [List.mem_cons, List.not_mem_nil, or_false] at ih
    rcases ih with rfl | rfl | rfl
    · exact (show asked _ _ ⊆ _ by decide +kernel) hq
    · exact (show asked _ _ ⊆ _ by decide +kernel) hq
    · exact absurd hex (by decide)

theorem directives_exact_cycle : Exact (.ofTable cycle) ["a.ts".toList]
    (Resolver.directives ["a.ts".toList] (Services.ofTable cycle).counted false 0).1 := by
  have hfiles : ∀ p, cycle.any (fun file => file.1 = p) = true → p ∈ cycle.map (·.1) := by
    intro p hp
    obtain ⟨file, hf, he⟩ := List.any_eq_true.1 hp
    exact List.mem_map.2 ⟨file, hf, by simpa using he⟩
  refine (directives_exact (consistent_counted (.ofTable cycle)) hfiles (by decide)
    (fun _ p q hp hq => ?_) trivial).1
  · have hmarks : ∀ p ∈ ["/a.ts".toList, "/B.ts".toList, "/c.ts".toList],
        ∀ q ∈ ["/a.ts".toList, "/B.ts".toList, "/c.ts".toList],
          Text.lowerCase p = Text.lowerCase q → p = q := by decide +kernel
    exact hmarks p (mem_of_reach_cycle hp) q (mem_of_reach_cycle hq)

end BatchCompile
