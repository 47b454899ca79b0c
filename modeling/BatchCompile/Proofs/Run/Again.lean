import BatchCompile.Proofs.Hosts.Outlines
import BatchCompile.Proofs.Run.Phases

/-!
# Writing again

What is written to a tree in memory a second time comes out as it did the first time: what was
written is written, and what was refused is refused (`takeResults_again`). For what is refused
depends on the outline of the tree alone, and the outline does not change any more: a file that was
written is there, and so are the directories above it, while an attempt that failed has left what it
found in its way.
-/

namespace BatchCompile

open BatchCompile.Path (Anchored anchored_of_mem_ancestors anchored_resolve resolve_anchored)

/-! ## Changes -/

namespace Memory

variable (m : Memory) (p : Path)

theorem change_write (s : Source) : change (·.write p s) m =
    (m.outline.writeRefusal? p).elim (.ok (), m.putFile p s) fun r => (refused r, m) := by
  unfold change
  dsimp only
  rw [write_eq]
  cases m.outline.writeRefusal? p <;> rfl

theorem change_createDirectory : change (·.createDirectory p) m =
    (m.outline.createRefusal? p).elim (.ok (), m.putDirectory p) fun r => (refused r, m) := by
  unfold change
  dsimp only
  rw [createDirectory_eq]
  cases m.outline.createRefusal? p <;> rfl

theorem alike_write (s : Source) : Alike outline (change (·.write p s)) := by
  intro m m' hl
  rw [change_write, change_write, ← hl]
  cases m.outline.writeRefusal? p with
  | none => exact ⟨rfl, by simp only [Option.elim, outline_putFile, hl]⟩
  | some r => exact ⟨rfl, hl⟩

theorem alike_createDirectory : Alike outline (change (·.createDirectory p)) := by
  intro m m' hl
  rw [change_createDirectory, change_createDirectory, ← hl]
  cases m.outline.createRefusal? p with
  | none => exact ⟨rfl, by simp only [Option.elim, outline_putDirectory, hl]⟩
  | some r => exact ⟨rfl, hl⟩

/-- The guarantee of actions that only add to the outline of a tree. -/
def growing : Guarantee (Traced Memory) where
  holds x P := ∀ w, P (exec x w).1 ∧ w.2.outline.Grows (exec x w).2.2.outline
  holds_pure ha w := ⟨ha, .refl _⟩
  holds_bind {_ _ x _ _ _} hx hf w := by
    obtain ⟨ha, hg⟩ := hx w
    obtain ⟨hb, hg'⟩ := hf _ ha (exec x w).2
    exact ⟨hb, hg.trans hg'⟩

theorem grows_of_holds {α : Type} {x : Traced Memory α} {P : α → Prop} (hx : growing.holds x P)
    {w w' : Trace Memory} {a : α} (he : exec x w = (a, w')) : w.2.outline.Grows w'.2.outline := by
  have hgrows := (hx w).2
  rwa [he] at hgrows

variable (cwd : Path)

theorem writes_alike : (host cwd).recorded.WritesKeep (Guarantee.alike outline) where
  fileExists p _ _ hl := ⟨trivial, congrArg (fun s => s.isFile (Path.resolve cwd [p])) hl, hl⟩
  directoryExists p _ _ hl :=
    ⟨trivial, congrArg (fun s => s.isDirectory (Path.resolve cwd [p])) hl, hl⟩
  createDirectory _ := holds_alike (alike_createDirectory _) _
  write _ _ _ := holds_alike (alike_write _ _) _

theorem writes_growing : (host cwd).recorded.WritesKeep growing where
  fileExists _ _ := ⟨trivial, .refl _⟩
  directoryExists _ _ := ⟨trivial, .refl _⟩
  createDirectory p w := by
    refine ⟨trivial, ?_⟩
    show w.2.outline.Grows (change (·.createDirectory (Path.resolve cwd [p])) w.2).2.outline
    rw [change_createDirectory]
    cases w.2.outline.createRefusal? (Path.resolve cwd [p]) with
    | none => exact outline_putDirectory _ _ ▸ Outline.grows_putDirectory _ _
    | some r => exact .refl _
  write p t marked w := by
    refine ⟨trivial, ?_⟩
    show w.2.outline.Grows (change (·.write (Path.resolve cwd [p]) _) w.2).2.outline
    rw [change_write]
    cases w.2.outline.writeRefusal? (Path.resolve cwd [p]) with
    | none => exact outline_putFile _ _ _ ▸ Outline.grows_putFile _ _
    | some r => exact .refl _

theorem prints_growing : (host cwd).recorded.PrintsKeep growing :=
  fun _ _ _ => ⟨trivial, .refl _⟩

end Memory

/-! ## Directories on the way -/

section

variable {cwd : Path}

theorem exec_ensureChain_cons {q : Path} (hq : Anchored q) (above : List Path) (w : Trace Memory) :
    exec ((Memory.host cwd).recorded.ensureChain (q :: above)) w =
      if w.2.hasDirectory q then (.ok (), w)
      else if w.2.hasFile q then (.error (.of (.notDirectory q)), w)
      else match exec ((Memory.host cwd).recorded.ensureChain above) w with
        | (.error f, w') => (.error f, w')
        | (.ok (), w') => exec ((Memory.host cwd).recorded.createDirectory q) w' := by
  rw [Host.ensureChain, exec_bind]
  show exec (if w.2.hasDirectory (Path.resolve cwd [q]) then _ else _) w = _
  rw [resolve_anchored cwd hq]
  split
  · rfl
  rw [exec_bind]
  show exec (if w.2.hasFile (Path.resolve cwd [q]) then _ else _) w = _
  rw [resolve_anchored cwd hq]
  split
  · rfl
  rw [exec_bind]
  show exec _ (exec ((Memory.host cwd).recorded.ensureChain above) w).2 = _
  rcases exec ((Memory.host cwd).recorded.ensureChain above) w with ⟨⟨f⟩ | ⟨⟨⟩⟩, w'⟩ <;> rfl

theorem ensureChain_of_room {p : Path} (hp : Anchored p) {w : Trace Memory}
    (hr : w.2.outline.HasRoom p) :
    exec ((Memory.host cwd).recorded.ensureChain (Path.ancestors p)) w = (.ok (), w) := by
  rw [Path.ancestors]
  split
  · rfl
  rename_i q hq
  rw [exec_ensureChain_cons (hp.dirName hq)]
  exact if_pos (hr q hq)

/-- To make the directories above a path either makes room for it and no files, or fails for a file
that is in the way and makes nothing. -/
theorem ensureChain_outcome (cwd : Path) {p : Path} (hp : Anchored p) (w : Trace Memory) :
    (∃ w', exec ((Memory.host cwd).recorded.ensureChain (Path.ancestors p)) w = (.ok (), w') ∧
      w'.2.outline.HasRoom p ∧ w'.2.files = w.2.files) ∨
    ∃ f w', exec ((Memory.host cwd).recorded.ensureChain (Path.ancestors p)) w = (.error f, w') ∧
      w'.2 = w.2 := by
  fun_induction Path.ancestors p generalizing w with
  | case1 p hd =>
    refine .inl ⟨w, rfl, fun q hq => ?_, rfl⟩
    rw [hd] at hq
    cases hq
  | case2 p q hd ih =>
    have hq := hp.dirName hd
    have hroom : ∀ m : Memory, m.hasDirectory q = true → m.outline.HasRoom p := by
      intro m hm q' hq'
      rw [hd] at hq'
      cases hq'
      exact hm
    rw [exec_ensureChain_cons hq]
    split
    · rename_i hdirectory
      exact .inl ⟨w, rfl, hroom w.2 hdirectory, rfl⟩
    split
    · exact .inr ⟨_, w, rfl, rfl⟩
    rename_i hfile
    obtain ⟨w₁, he, hr, hfiles⟩ | ⟨f, w₁, he, hw⟩ := ih hq w
    · have hnone : w₁.2.outline.createRefusal? q = none := by
        have hfile₁ : w₁.2.hasFile q = w.2.hasFile q := by
          rw [Memory.hasFile, Memory.file?, hfiles]
          rfl
        show (if w₁.2.hasFile q then _ else _) = none
        rw [hfile₁, if_neg hfile, Option.map_eq_none_iff, Outline.missingParent?_eq_none]
        exact hr
      have hmade : exec ((Memory.host cwd).recorded.createDirectory q) w₁ =
          (.ok (), .createDirectory q :: w₁.1, w₁.2.putDirectory q) := by
        show (let r := Memory.change (·.createDirectory (Path.resolve cwd [q])) w₁.2
          (r.1, .createDirectory q :: w₁.1, r.2)) = _
        rw [resolve_anchored cwd hq, Memory.change_createDirectory, hnone]
        rfl
      rw [he]
      refine .inl ⟨_, hmade, hroom _ ((Memory.hasDirectory_putDirectory q).2 (.inl rfl)), ?_⟩
      rw [← hfiles]
      show (w₁.2.putDirectory q).files = _
      unfold Memory.putDirectory
      split <;> rfl
    · rw [he]
      exact .inr ⟨f, w₁, rfl, hw⟩

end

/-! ## Actions done again -/

/-- What was printed, the last message first. -/
def Journal.messages (j : Journal) : List (Channel × Text) :=
  j.filterMap fun
    | .print channel t => some (channel, t)
    | _ => none

def Guarantee.silent (σ : Type) : Guarantee (Traced σ) where
  holds x P := ∀ w, P (exec x w).1 ∧ Journal.messages (exec x w).2.1 = Journal.messages w.1
  holds_pure ha _ := ⟨ha, rfl⟩
  holds_bind {_ _ x _ _ _} hx hf w := by
    obtain ⟨ha, hm⟩ := hx w
    obtain ⟨hb, hm'⟩ := hf _ ha (exec x w).2
    exact ⟨hb, hm'.trans hm⟩

theorem writes_silent {σ : Type} (h : Host (StateM σ)) :
    h.recorded.WritesKeep (Guarantee.silent σ) :=
  ⟨fun _ _ => ⟨trivial, rfl⟩, fun _ _ => ⟨trivial, rfl⟩, fun _ _ => ⟨trivial, rfl⟩,
    fun _ _ _ _ => ⟨trivial, rfl⟩⟩

/-- An action done from `w` and later from `v` answers the same and prints the same, and the second
time it leaves the outline as it is. -/
structure Again {α : Type} (x : Traced Memory α) (w v : Trace Memory) : Prop where
  answer : (exec x v).1 = (exec x w).1
  outline : (exec x v).2.2.outline = v.2.outline
  messages : ∃ printed, Journal.messages (exec x w).2.1 = printed ++ Journal.messages w.1 ∧
    Journal.messages (exec x v).2.1 = printed ++ Journal.messages v.1

namespace Again

variable {α β : Type} {w v : Trace Memory}

theorem pure (a : α) : Again (Pure.pure a) w v :=
  ⟨rfl, rfl, [], rfl, rfl⟩

theorem bind {x : Traced Memory α} {f : α → Traced Memory β} (hx : Again x w v)
    (hf : Again (f (exec x w).1) (exec x w).2 (exec x v).2) : Again (x >>= f) w v := by
  obtain ⟨printed, hw, hv⟩ := hx.messages
  obtain ⟨printed', hw', hv'⟩ := hf.messages
  refine ⟨?_, ?_, printed' ++ printed, ?_, ?_⟩
  · rw [exec_bind, exec_bind, hx.answer, hf.answer]
  · rw [exec_bind, hx.answer, hf.outline, hx.outline]
  · rw [exec_bind, hw', hw, List.append_assoc]
  · rw [exec_bind, hx.answer, hv', hv, List.append_assoc]

theorem of_silent {x : Traced Memory α} (hx : (Guarantee.silent Memory).holds x fun _ => True)
    (ha : (exec x v).1 = (exec x w).1) (ho : (exec x v).2.2.outline = v.2.outline) : Again x w v :=
  ⟨ha, ho, [], (hx w).2, (hx v).2⟩

end Again

section

variable {cwd : Path} {c : Configuration}

theorem again_print (ds : List Diagnostic) (w v : Trace Memory) :
    Again (ds.forM (printDiagnostic (Memory.host cwd).recorded)) w v := by
  induction ds generalizing w v with
  | nil => exact .pure ()
  | cons d ds ih => exact .bind ⟨rfl, rfl, [(.error, _)], rfl, rfl⟩ (ih _ _)

theorem exec_write {p : Path} (hp : Anchored p) (t : Text) (marked : Bool) (w : Trace Memory) :
    exec ((Memory.host cwd).recorded.write p t marked) w =
      (w.2.outline.writeRefusal? p).elim
        (.ok (), .write p :: w.1, w.2.putFile p ⟨t, storedMark marked⟩)
        fun r => (Memory.refused r, .write p :: w.1, w.2) := by
  show (let o := Memory.change (·.write (Path.resolve cwd [p]) ⟨t, storedMark marked⟩) w.2
    (o.1, .write p :: w.1, o.2)) = _
  rw [resolve_anchored cwd hp, Memory.change_write]
  cases w.2.outline.writeRefusal? p <;> rfl

theorem exec_writeFile {p : Path} {t : Text} {marked : Bool} {w w₁ : Trace Memory}
    (he : exec ((Memory.host cwd).recorded.ensureChain (Path.ancestors p)) w = (.ok (), w₁)) :
    exec ((Memory.host cwd).recorded.writeFile p t marked) w =
      exec ((Memory.host cwd).recorded.write p t marked) w₁ := by
  rw [Host.writeFile, exec_bind, he]

/-- A file that was written, or could not be, is written again or still cannot be. -/
theorem writeFile_again {p : Path} (hp : Anchored p) {t : Text} {marked : Bool}
    {w v : Trace Memory} {r : Except Failure Unit} {w' : Trace Memory}
    (he : exec ((Memory.host cwd).recorded.writeFile p t marked) w = (r, w'))
    (hg : w'.2.outline.Grows v.2.outline) (hv : v.2.outline.Apart)
    (hend : r = .ok () ∨ v.2.outline = w'.2.outline) :
    Again ((Memory.host cwd).recorded.writeFile p t marked) w v := by
  suffices hv' : ∃ v', exec ((Memory.host cwd).recorded.writeFile p t marked) v = (r, v') ∧
      v'.2.outline = v.2.outline by
    obtain ⟨v', hv', ho⟩ := hv'
    exact .of_silent (holds_writeFile (writes_silent _) p t marked) (by rw [he, hv'])
      (by rw [hv', ho])
  obtain ⟨w₁, hchain, hroom, -⟩ | ⟨f, w₁, hchain, hw₁⟩ := ensureChain_outcome cwd hp w
  · rw [exec_writeFile hchain, exec_write hp] at he
    cases hrefusal : w₁.2.outline.writeRefusal? p with
    | none =>
      rw [hrefusal] at he
      cases he
      -- the file is there by now, and so are the directories above it
      change (w₁.2.putFile p ⟨t, storedMark marked⟩).outline.Grows v.2.outline at hg
      rw [Memory.outline_putFile] at hg
      have hgrows := (Outline.grows_putFile w₁.2.outline p).trans hg
      have hfile : v.2.outline.isFile p = true := hg.files p (by simp [Outline.putFile])
      have hnone := Outline.writeRefusal?_grows hrefusal hgrows (hv p hfile)
      have hroom' : v.2.outline.HasRoom p := fun q hq => hgrows.directories q (hroom q hq)
      rw [exec_writeFile (ensureChain_of_room hp hroom'), exec_write hp, hnone]
      exact ⟨_, rfl, (Memory.outline_putFile v.2 p _).trans (Outline.putFile_eq hfile)⟩
    | some refusal =>
      rw [hrefusal] at he
      cases he
      obtain hok | ho := hend
      · cases hok
      change v.2.outline = w₁.2.outline at ho
      have hroom' : v.2.outline.HasRoom p := ho ▸ hroom
      rw [exec_writeFile (ensureChain_of_room hp hroom'), exec_write hp, ho, hrefusal]
      exact ⟨_, rfl, ho⟩
  · -- nothing was made, so it fails from the same outline
    have hfailed : exec ((Memory.host cwd).recorded.writeFile p t marked) w = (.error f, w₁) := by
      rw [Host.writeFile, exec_bind, hchain]
      rfl
    rw [hfailed] at he
    cases he
    obtain hok | ho := hend
    · cases hok
    rw [hw₁] at ho
    obtain ⟨-, hanswer, houtline⟩ :=
      holds_writeFile (Memory.writes_alike cwd) p t marked w v ho.symm
    rw [hfailed] at hanswer houtline
    refine ⟨(exec ((Memory.host cwd).recorded.writeFile p t marked) v).2,
      Prod.ext hanswer.symm rfl, ?_⟩
    rw [← houtline, hw₁, ho]

variable (hroot : Path.isRooted cwd = true)

include hroot

theorem place_again {a : Artifact} {w v : Trace Memory} {r : Except Failure Path}
    {w' : Trace Memory} (he : exec (place (Memory.host cwd).recorded c a) w = (r, w'))
    (hg : w'.2.outline.Grows v.2.outline) (hv : v.2.outline.Apart)
    (hend : (∃ p, r = .ok p) ∨ v.2.outline = w'.2.outline) :
    Again (place (Memory.host cwd).recorded c a) w v := by
  unfold place at he ⊢
  cases hgoal : destination (Memory.host cwd).recorded.cwd c a.name with
  | error f => exact .pure _
  | ok goal =>
    simp only [hgoal] at he ⊢
    cases htext : placedText (Memory.host cwd).recorded.cwd c a.name goal a.text with
    | error f => exact .pure _
    | ok text =>
      simp only [htext] at he ⊢
      have hp : Anchored ((Memory.host cwd).recorded.absolute goal) := anchored_resolve hroot goal
      rw [exec_bind] at he
      rcases hwritten : exec ((Memory.host cwd).recorded.writeFile
        ((Memory.host cwd).recorded.absolute goal) text a.marked) w with ⟨⟨f⟩ | ⟨⟨⟩⟩, w₁⟩
      · rw [hwritten] at he
        cases he
        have ho : v.2.outline = w₁.2.outline := hend.resolve_left nofun
        refine .bind (writeFile_again hp hwritten hg hv (.inr ho)) ?_
        rw [hwritten]
        exact .pure _
      · rw [hwritten] at he
        cases he
        refine .bind (writeFile_again hp hwritten hg hv (.inl rfl)) ?_
        rw [hwritten]
        exact .pure _

theorem writeArtifacts_again {as : List Artifact} {w v : Trace Memory} {r : List Path × Bool}
    {w' : Trace Memory} (he : exec (writeArtifacts (Memory.host cwd).recorded c as) w = (r, w'))
    (hg : w'.2.outline.Grows v.2.outline) (hv : v.2.outline.Apart)
    (hend : r.2 = true ∨ v.2.outline = w'.2.outline) :
    Again (writeArtifacts (Memory.host cwd).recorded c as) w v := by
  induction as generalizing w v r with
  | nil => exact .pure _
  | cons a as ih =>
    rw [writeArtifacts, exec_bind] at he
    rcases hplaced : exec (place (Memory.host cwd).recorded c a) w with ⟨f | p, w₁⟩
    · rw [hplaced] at he
      cases he
      have ho : v.2.outline = w₁.2.outline := hend.resolve_left Bool.false_ne_true
      refine .bind (place_again hroot hplaced (ho ▸ .refl _) hv (.inr ho)) ?_
      rw [hplaced]
      exact .bind ⟨rfl, rfl, [(.error, _)], rfl, rfl⟩ (.pure _)
    · rw [hplaced] at he
      rcases hrest : exec (writeArtifacts (Memory.host cwd).recorded c as) w₁ with ⟨r', w₂⟩
      simp only [exec_bind, hrest, exec_pure] at he
      cases he
      have hgrows : w₁.2.outline.Grows w'.2.outline := Memory.grows_of_holds
        (holds_writeArtifacts (Memory.writes_growing cwd) (Memory.prints_growing cwd) as) hrest
      have hagain := place_again hroot hplaced (hgrows.trans hg) hv (.inl ⟨p, rfl⟩)
      refine .bind hagain ?_
      rw [hplaced]
      have ho := hagain.outline
      refine .bind (ih hrest (ho ▸ hg) (ho ▸ hv) (hend.imp_right fun e => ho.trans e)) ?_
      rw [hrest]
      exact .pure _

/-- On the tree that it left, taking results comes to the same progress, and leaves the outline as
it is. -/
theorem takeResults_again {rs : List PhaseResult} {w v : Trace Memory} {progress : Progress}
    {w' : Trace Memory} (he : exec (takeResults (Memory.host cwd).recorded c rs) w = (progress, w'))
    (ho : v.2.outline = w'.2.outline) (hv : v.2.outline.Apart) :
    Again (takeResults (Memory.host cwd).recorded c rs) w v := by
  induction rs generalizing w v progress with
  | nil => exact .pure _
  | cons r rs ih =>
    rw [takeResults]
    refine .bind (again_print r.diagnostics w v) ?_
    change Again _ (reported (Memory.host cwd) r.diagnostics w)
      (reported (Memory.host cwd) r.diagnostics v)
    have hkept : ∀ u : Trace Memory, (reported (Memory.host cwd) r.diagnostics u).2 = u.2 :=
      fun u => (Memory.steady_of cwd (· = u.2)).kept_reported r.diagnostics rfl
    rw [← hkept v] at ho hv
    generalize reported (Memory.host cwd) r.diagnostics v = v at ho hv ⊢
    cases hfatal : fatal? c r with
    | some abort => exact .pure _
    | none =>
      rcases hartifacts : exec (writeArtifacts (Memory.host cwd).recorded c r.artifacts)
        (reported (Memory.host cwd) r.diagnostics w) with ⟨⟨written, all⟩, w₁⟩
      cases all with
      | false =>
        rw [takeResults_refused hfatal hartifacts] at he
        cases he
        refine .bind (writeArtifacts_again hroot hartifacts (ho ▸ .refl _) hv (.inr ho)) ?_
        rw [hartifacts]
        exact .pure _
      | true =>
        rcases hlater : exec (takeResults (Memory.host cwd).recorded c rs) w₁ with ⟨later, w₂⟩
        rw [takeResults_written hfatal hartifacts hlater] at he
        cases he
        have hgrows : w₁.2.outline.Grows w'.2.outline := Memory.grows_of_holds
          (holds_takeResults (Memory.writes_growing cwd) (Memory.prints_growing cwd) rs) hlater
        have hagain := writeArtifacts_again hroot hartifacts (ho ▸ hgrows) hv (.inl rfl)
        refine .bind hagain ?_
        rw [hartifacts]
        refine .bind (ih hlater (hagain.outline.trans ho) (hagain.outline ▸ hv)) ?_
        rw [hlater]
        exact .pure _

end

end BatchCompile
