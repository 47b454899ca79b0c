import BatchCompile.Closure
import Mathlib.Data.List.Forall2
import Mathlib.Data.List.Nodup

/-!
# Visits

What one visit does to a walk, over services that only answer. `Sound` is what holds between
visits: the marks are those of paths of a set `R` that is closed under asking, and each marked
file is found or still `opened`. A visit keeps it and leaves a mark (`onward_visit`), as long as
there is depth for the files that are `unmarked`.
-/

namespace BatchCompile

def Resolution.paths (r : Resolution) : List Path :=
  r.files.map ResolvedFile.path

/-- The diagnostic says that this file is missing. -/
def Diagnostic.Reports (d : Diagnostic) (p : Path) : Prop :=
  ∃ asker, d = .ofMessage asker .fileNotFound [p]

namespace Walk

section

variable (answers : Services Id)

def said (p : Path) : Directives :=
  Directives.scan (answers.sourceText p).run

def references (p : Path) : List Path :=
  (said answers p).references.map fun name =>
    (answers.resolve name (answers.parentDirectory p).run).run

def imports (p : Path) : List Path :=
  (said answers p).imports.map fun name =>
    (importPath answers (answers.parentDirectory p).run name).run

def asked (p : Path) : List Path :=
  references answers p ++ imports answers p

def visits (caseSensitive : Bool) (depth : Nat) (asker : Option Path) (qs : List Path) (w : Walk) :
    Walk :=
  qs.foldl (fun w q => (visit answers caseSensitive depth asker q w).run) w

end

theorem follow_eq (visit : Path → Walk → Id Walk) (meaning : Text → Id Path) (names : List Text)
    (w : Walk) : (follow visit meaning names w).run =
      (names.map fun name => (meaning name).run,
        (names.map fun name => (meaning name).run).foldl (fun w p => (visit p w).run) w) := by
  have key : ∀ (names : List Text) (found : List Path) (w : Walk),
      (names.foldlM (fun (s : List Path × Walk) name => do
        let p ← meaning name
        let w ← visit p s.2
        pure (s.1 ++ [p], w)) (found, w) : Id _).run =
      (found ++ names.map fun name => (meaning name).run,
        (names.map fun name => (meaning name).run).foldl (fun w p => (visit p w).run) w) := by
    intro names
    induction names with
    | nil => intro found w; simp
    | cons name names ih =>
      intro found w
      rw [List.foldlM_cons]
      refine (ih (found ++ [(meaning name).run]) _).trans ?_
      simp only [List.map_cons, List.foldl_cons, List.append_assoc, List.singleton_append]
      rfl
  exact key names [] w

variable {answers : Services Id} {caseSensitive : Bool} {depth : Nat} {asker : Option Path}
  {p : Path} {w : Walk}

theorem visit_marked (h : mark caseSensitive p ∈ w.visited) :
    (visit answers caseSensitive depth asker p w).run = w := by
  cases depth with
  | zero => rfl
  | succ depth => exact if_pos (List.contains_iff_mem.2 h)

theorem visit_missing (h : mark caseSensitive p ∉ w.visited)
    (he : (answers.fileExists p).run = false) :
    (visit answers caseSensitive (depth + 1) asker p w).run =
      (w.leave (mark caseSensitive p)).missing asker p := by
  have he' : answers.fileExists p = false := he
  unfold visit
  rw [if_neg (by simpa using h)]
  show Id.run (if !answers.fileExists p then _ else _) = _
  rw [he']
  rfl

theorem visit_file (h : mark caseSensitive p ∉ w.visited)
    (he : (answers.fileExists p).run = true) :
    (visit answers caseSensitive (depth + 1) asker p w).run =
      (visits answers caseSensitive depth (some p) (asked answers p)
        ((w.leave (mark caseSensitive p)).note (said answers p).noDefaultLib)).add
          ⟨p, references answers p, imports answers p⟩ := by
  have he' : answers.fileExists p = true := he
  unfold visit
  rw [if_neg (by simpa using h)]
  show Id.run (if !answers.fileExists p then _ else _) = _
  rw [he']
  let inner := visit answers caseSensitive depth (some p)
  let directory := (answers.parentDirectory p).run
  let noted := (w.leave (mark caseSensitive p)).note (said answers p).noDefaultLib
  let first := (follow inner (answers.resolve · directory) (said answers p).references noted).run
  let second := (follow inner (importPath answers directory) (said answers p).imports first.2).run
  show second.2.add ⟨p, first.1, second.1⟩ = _
  rw [show second = _ from follow_eq inner _ _ _, show first = _ from follow_eq inner _ _ _]
  rw [visits, asked, List.foldl_append]
  rfl

/-! ## Between visits -/

/-- A path of the set whose mark was left. -/
def Seen (caseSensitive : Bool) (R : Path → Prop) (w : Walk) (p : Path) : Prop :=
  R p ∧ mark caseSensitive p ∈ w.visited

/-- What holds between visits: the files seen are found, each once, or still `opened`; the files
found ask for nothing that was not seen; the missing files seen are `lost`, each reported once. -/
structure Sound (answers : Services Id) (caseSensitive : Bool) (R : Path → Prop)
    (opened lost : List Path) (w : Walk) : Prop where
  file_iff : ∀ p, p ∈ w.found.paths ∨ p ∈ opened ↔
    Seen caseSensitive R w p ∧ (answers.fileExists p).run = true
  apart : ∀ p ∈ opened, p ∉ w.found.paths
  nodup : (w.found.paths).Nodup
  lost_iff : ∀ p, p ∈ lost ↔ Seen caseSensitive R w p ∧ (answers.fileExists p).run = false
  lost_nodup : lost.Nodup
  reported : List.Forall₂ Diagnostic.Reports w.found.diagnostics lost
  closed : ∀ p ∈ w.found.paths, ∀ q ∈ asked answers p, mark caseSensitive q ∈ w.visited
  noLib_iff : w.found.sawNoDefaultLib = true ↔ ∃ p, Seen caseSensitive R w p ∧
    (answers.fileExists p).run = true ∧ (said answers p).noDefaultLib = true

theorem sound_start (answers : Services Id) (caseSensitive : Bool) (R : Path → Prop) :
    Sound answers caseSensitive R [] [] start where
  file_iff p := by simp [Resolution.paths, start, Seen]
  apart := by simp
  nodup := List.nodup_nil
  lost_iff p := by simp [start, Seen]
  lost_nodup := List.nodup_nil
  reported := .nil
  closed := by simp [Resolution.paths, start]
  noLib_iff := by simp [start, Seen]

variable {R : Path → Prop} {opened lost : List Path}

section

variable (hinj : ∀ p q, R p → R q → mark caseSensitive p = mark caseSensitive q → p = q)

include hinj

theorem seen_leave (hp : R p) {v : Walk}
    (hv : v.visited = mark caseSensitive p :: w.visited) (q : Path) :
    Seen caseSensitive R v q ↔ Seen caseSensitive R w q ∨ q = p := by
  rw [Seen, Seen, hv, List.mem_cons]
  constructor
  · rintro ⟨hq, hm | hm⟩
    · exact .inr (hinj q p hq hp hm)
    · exact .inl ⟨hq, hm⟩
  · rintro (⟨hq, hm⟩ | rfl)
    · exact ⟨hq, .inr hm⟩
    · exact ⟨hp, .inl rfl⟩

theorem Sound.missing (h : Sound answers caseSensitive R opened lost w) (hp : R p)
    (hm : mark caseSensitive p ∉ w.visited) (he : (answers.fileExists p).run = false) :
    Sound answers caseSensitive R opened (lost ++ [p])
      ((w.leave (mark caseSensitive p)).missing asker p) := by
  have hseen := seen_leave hinj hp (w := w)
    (v := (w.leave (mark caseSensitive p)).missing asker p) rfl
  have hne : ∀ q, (answers.fileExists q).run = true → q ≠ p := by
    rintro q hq rfl
    rw [he] at hq
    cases hq
  refine ⟨fun q => ?_, h.apart, h.nodup, fun q => ?_, ?_, ?_, fun q hq r hr => ?_, ?_⟩
  · rw [hseen]
    refine (h.file_iff q).trans ⟨fun ⟨hs, hq⟩ => ⟨.inl hs, hq⟩, fun ⟨hs, hq⟩ => ⟨?_, hq⟩⟩
    exact hs.resolve_right (hne q hq)
  · rw [hseen, List.mem_append, List.mem_singleton, h.lost_iff]
    constructor
    · rintro (⟨hs, hq⟩ | rfl)
      · exact ⟨.inl hs, hq⟩
      · exact ⟨.inr rfl, he⟩
    · rintro ⟨hs | rfl, hq⟩
      · exact .inl ⟨hs, hq⟩
      · exact .inr rfl
  · refine List.nodup_append.2 ⟨h.lost_nodup, List.nodup_singleton p, ?_⟩
    rintro q hq _ hr rfl
    rw [List.mem_singleton.1 hr] at hq
    exact hm ((h.lost_iff p).1 hq).1.2
  · exact List.rel_append h.reported (.cons ⟨asker, rfl⟩ .nil)
  · exact List.mem_cons_of_mem _ (h.closed q hq r hr)
  · refine h.noLib_iff.trans (exists_congr fun q => ?_)
    rw [hseen]
    refine ⟨fun ⟨hs, hq⟩ => ⟨.inl hs, hq⟩, fun ⟨hs, hq⟩ => ⟨?_, hq⟩⟩
    exact hs.resolve_right (hne q hq.1)

/-- A file is opened when its mark is left. -/
theorem Sound.opens (h : Sound answers caseSensitive R opened lost w) (hp : R p)
    (hm : mark caseSensitive p ∉ w.visited) (he : (answers.fileExists p).run = true) :
    Sound answers caseSensitive R (p :: opened) lost
      ((w.leave (mark caseSensitive p)).note (said answers p).noDefaultLib) := by
  have hseen := seen_leave hinj hp (w := w)
    (v := (w.leave (mark caseSensitive p)).note (said answers p).noDefaultLib) rfl
  have hnew : p ∉ w.found.paths := fun hf => hm ((h.file_iff p).1 (.inl hf)).1.2
  refine ⟨fun q => ?_, fun q hq => ?_, h.nodup, fun q => ?_, h.lost_nodup, h.reported,
    fun q hq r hr => List.mem_cons_of_mem _ (h.closed q hq r hr), ?_⟩
  · rw [hseen, List.mem_cons]
    constructor
    · rintro (hf | rfl | ho)
      · obtain ⟨hs, hq⟩ := (h.file_iff q).1 (.inl hf)
        exact ⟨.inl hs, hq⟩
      · exact ⟨.inr rfl, he⟩
      · obtain ⟨hs, hq⟩ := (h.file_iff q).1 (.inr ho)
        exact ⟨.inl hs, hq⟩
    · rintro ⟨hs | rfl, hq⟩
      · exact ((h.file_iff q).2 ⟨hs, hq⟩).imp_right .inr
      · exact .inr (.inl rfl)
  · rcases List.mem_cons.1 hq with rfl | hq
    · exact hnew
    · exact h.apart q hq
  · rw [hseen]
    refine (h.lost_iff q).trans ⟨fun ⟨hs, hq⟩ => ⟨.inl hs, hq⟩, fun ⟨hs, hq⟩ => ⟨?_, hq⟩⟩
    refine hs.resolve_right ?_
    rintro rfl
    rw [he] at hq
    cases hq
  · show (w.found.sawNoDefaultLib || (said answers p).noDefaultLib) = true ↔ _
    rw [Bool.or_eq_true, h.noLib_iff]
    constructor
    · rintro (⟨q, hs, hq⟩ | hn)
      · exact ⟨q, (hseen q).2 (.inl hs), hq⟩
      · exact ⟨p, (hseen p).2 (.inr rfl), he, hn⟩
    · rintro ⟨q, hs, hq⟩
      rcases (hseen q).1 hs with hs | rfl
      · exact .inl ⟨q, hs, hq⟩
      · exact .inr hq.2

end

/-- An opened file is found when all that it asks for was seen. -/
theorem Sound.add (h : Sound answers caseSensitive R (p :: opened) lost w) (hp : p ∉ opened)
    (hq : ∀ q ∈ asked answers p, mark caseSensitive q ∈ w.visited) (rs is : List Path) :
    Sound answers caseSensitive R opened lost (w.add ⟨p, rs, is⟩) := by
  have hpaths : (w.add ⟨p, rs, is⟩).found.paths = w.found.paths ++ [p] := List.map_append
  have hp' := h.apart p List.mem_cons_self
  refine ⟨fun q => ?_, fun q ho hf => ?_, ?_, h.lost_iff, h.lost_nodup, h.reported,
    fun q hf r hr => ?_, h.noLib_iff⟩
  · refine Iff.trans ?_ (h.file_iff q)
    rw [hpaths, List.mem_append, List.mem_singleton, List.mem_cons, or_assoc]
  · rw [hpaths, List.mem_append, List.mem_singleton] at hf
    rcases hf with hf | rfl
    · exact h.apart q (List.mem_cons_of_mem p ho) hf
    · exact hp ho
  · rw [hpaths]
    refine List.nodup_append.2 ⟨h.nodup, List.nodup_singleton p, ?_⟩
    rintro q hf _ hr rfl
    exact hp' (List.mem_singleton.1 hr ▸ hf)
  · rw [hpaths, List.mem_append, List.mem_singleton] at hf
    rcases hf with hf | rfl
    · exact h.closed q hf r hr
    · exact hq r hr

/-! ## Depth -/

def unmarked (caseSensitive : Bool) (files : List Path) (w : Walk) : Nat :=
  (files.filter fun p => !w.visited.contains (mark caseSensitive p)).length

theorem unmarked_le_length (files : List Path) (w : Walk) :
    unmarked caseSensitive files w ≤ files.length :=
  List.length_filter_le _ _

theorem unmarked_le {files : List Path} {w' : Walk} (h : w.visited ⊆ w'.visited) :
    unmarked caseSensitive files w' ≤ unmarked caseSensitive files w := by
  refine (List.monotone_filter_right files fun p hp => ?_).length_le
  simp only [Bool.not_eq_true', List.contains_eq_mem, decide_eq_false_iff_not] at hp ⊢
  exact fun hm => hp (h hm)

theorem unmarked_lt {files : List Path} {w' : Walk} (hp : p ∈ files)
    (hm : mark caseSensitive p ∉ w.visited)
    (hw : w'.visited = mark caseSensitive p :: w.visited) :
    unmarked caseSensitive files w' < unmarked caseSensitive files w := by
  have hfilter : (files.filter fun q => !w'.visited.contains (mark caseSensitive q)) =
      (files.filter fun q => !w.visited.contains (mark caseSensitive q)).filter
        fun q => mark caseSensitive q ≠ mark caseSensitive p := by
    rw [List.filter_filter]
    refine List.filter_congr fun q _ => ?_
    simp [hw]
  rw [unmarked, unmarked, hfilter, List.length_filter_lt_length_iff_exists]
  exact ⟨p, List.mem_filter.2 ⟨hp, by simpa using hm⟩, by simp⟩

/-! ## Visits keep it -/

/-- A walk goes on soundly: it keeps its marks, and leaves those of some paths. -/
def Onward (answers : Services Id) (caseSensitive : Bool) (R : Path → Prop) (opened : List Path)
    (qs : List Path) (w w' : Walk) : Prop :=
  (∃ lost, Sound answers caseSensitive R opened lost w') ∧ w.visited ⊆ w'.visited ∧
    ∀ q ∈ qs, mark caseSensitive q ∈ w'.visited

section

variable {files : List Path}
  (hinj : ∀ p q, R p → R q → mark caseSensitive p = mark caseSensitive q → p = q)
  (hasked : ∀ p, R p → (answers.fileExists p).run = true → ∀ q ∈ asked answers p, R q)
  (hfiles : ∀ p, R p → (answers.fileExists p).run = true → p ∈ files)

theorem onward_visits
    (hvisit : ∀ asker p opened lost w, R p → Sound answers caseSensitive R opened lost w →
      unmarked caseSensitive files w < depth →
      Onward answers caseSensitive R opened [p] w
        (visit answers caseSensitive depth asker p w).run)
    (asker : Option Path) {qs : List Path} (hq : ∀ q ∈ qs, R q)
    (h : Sound answers caseSensitive R opened lost w)
    (hd : unmarked caseSensitive files w < depth) :
    Onward answers caseSensitive R opened qs w
      (visits answers caseSensitive depth asker qs w) := by
  induction qs generalizing lost w with
  | nil => exact ⟨⟨lost, h⟩, fun _ hm => hm, by simp⟩
  | cons q qs ih =>
    obtain ⟨⟨lost₁, h₁⟩, hsub₁, hm₁⟩ := hvisit asker q opened lost w (hq q List.mem_cons_self) h hd
    obtain ⟨h₂, hsub₂, hm₂⟩ := ih (fun r hr => hq r (List.mem_cons_of_mem q hr)) h₁
      (Nat.lt_of_le_of_lt (unmarked_le hsub₁) hd)
    refine ⟨h₂, fun _ hm => hsub₂ (hsub₁ hm), fun r hr => ?_⟩
    rcases List.mem_cons.1 hr with rfl | hr
    · exact hsub₂ (hm₁ r (by simp))
    · exact hm₂ r hr

include hinj hasked hfiles

/-- A visit goes on soundly and leaves its mark. -/
theorem onward_visit (asker : Option Path) (hp : R p)
    (h : Sound answers caseSensitive R opened lost w)
    (hd : unmarked caseSensitive files w < depth) :
    Onward answers caseSensitive R opened [p] w
      (visit answers caseSensitive depth asker p w).run := by
  induction depth generalizing asker p opened lost w with
  | zero => exact absurd hd (Nat.not_lt_zero _)
  | succ depth ih =>
    by_cases hm : mark caseSensitive p ∈ w.visited
    · rw [visit_marked hm]
      exact ⟨⟨lost, h⟩, fun _ hm => hm, by simpa using hm⟩
    cases he : (answers.fileExists p).run with
    | false =>
      rw [visit_missing hm he]
      exact ⟨⟨_, h.missing hinj hp hm he⟩, List.subset_cons_self _ _, by simp [missing, leave]⟩
    | true =>
      rw [visit_file hm he]
      have hopen := h.opens hinj hp hm he
      generalize hw : (w.leave (mark caseSensitive p)).note (said answers p).noDefaultLib = w₁
        at hopen
      have hvisited : w₁.visited = mark caseSensitive p :: w.visited := by
        rw [← hw]
        rfl
      have hless := unmarked_lt (hfiles p hp he) hm hvisited
      obtain ⟨⟨lost', h'⟩, hsub, hmarks⟩ := onward_visits (fun a q o l v hq hv hl => ih a hq hv hl)
        (some p) (hasked p hp he) hopen (by omega)
      have hnew : p ∉ opened := fun ho => hm ((h.file_iff p).1 (.inr ho)).1.2
      refine ⟨⟨lost', h'.add hnew hmarks _ _⟩, fun k hk => hsub ?_, fun q hq => hsub ?_⟩
      · rw [hvisited]
        exact List.mem_cons_of_mem _ hk
      · rw [hvisited, List.mem_singleton.1 hq]
        exact List.mem_cons_self

end

end Walk

end BatchCompile
