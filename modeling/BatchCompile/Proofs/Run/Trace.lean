import BatchCompile.Run

/-!
# Traces of runs

On a recorded host a run changes two things: the journal, and the world of the host, which may be
of any type. `exec` runs an action from such a pair. `said` is what was printed on a channel, and
an action is `Quiet` if it prints nothing: whatever places an artifact or reads a source is.
-/

namespace BatchCompile

/-- Actions on a recorded host with a world of type `σ`. -/
abbrev Traced (σ : Type) := StateT Journal (StateM σ)

/-- The journal so far, and the world of the host. -/
abbrev Trace (σ : Type) := Journal × σ

/-- Runs an action: what it answers, and the trace after it. -/
def exec {σ α : Type} (x : Traced σ α) (w : Trace σ) : α × Trace σ :=
  let ((a, journal), world) := x w.1 w.2
  (a, journal, world)

section
variable {σ α β : Type}

@[simp] theorem exec_pure (a : α) (w : Trace σ) : exec (pure a) w = (a, w) := rfl

@[simp] theorem exec_bind (x : Traced σ α) (f : α → Traced σ β) (w : Trace σ) :
    exec (x >>= f) w = exec (f (exec x w).1) (exec x w).2 := rfl

@[simp] theorem exec_forM_cons (f : α → Traced σ Unit) (a : α) (as : List α) (w : Trace σ) :
    exec ((a :: as).forM f) w = exec (as.forM f) (exec (f a) w).2 := rfl

end

/-- The texts that were printed on a channel, in order. -/
def Journal.said (j : Journal) (channel : Channel) : List Text :=
  j.reverse.filterMap fun
    | .print on t => if on = channel then some t else none
    | _ => none

def said {σ : Type} (w : Trace σ) (channel : Channel) : List Text :=
  Journal.said w.1 channel

theorem Journal.said_print (j : Journal) (on channel : Channel) (t : Text) :
    Journal.said (.print on t :: j) channel
      = Journal.said j channel ++ if on = channel then [t] else [] := by
  unfold Journal.said
  by_cases h : on = channel <;> simp [h]

/-- Whatever comes of an action, it prints nothing. -/
def Quiet {σ α : Type} (x : Traced σ α) : Prop :=
  ∀ w, said (exec x w).2 = said w

namespace Quiet

variable {σ α β : Type}

theorem pure (a : α) : Quiet (σ := σ) (Pure.pure a) := fun _ => rfl

theorem bind {x : Traced σ α} {f : α → Traced σ β} (hx : Quiet x) (hf : ∀ a, Quiet (f a)) :
    Quiet (x >>= f) := by
  intro w
  rw [exec_bind, hf _ _, hx w]

theorem lifted (x : StateM σ α) : Quiet (σ := σ) (liftM x) := fun _ => rfl

theorem record {e : Event} (he : ∀ channel t, e ≠ .print channel t) :
    Quiet (σ := σ) (modify (e :: ·)) := by
  intro w
  funext channel
  show Journal.said (e :: w.1) channel = Journal.said w.1 channel
  unfold Journal.said
  cases e with
  | print on t => exact absurd rfl (he on t)
  | _ => simp

end Quiet

section Recorded

variable {σ : Type} (h : Host (StateM σ))

theorem quiet_read (p : Path) : Quiet (h.recorded.read p) :=
  .bind (.record (by simp)) fun _ => .lifted _

theorem quiet_write (p : Path) (t : Text) (marked : Bool) :
    Quiet (h.recorded.write p t marked) :=
  .bind (.record (by simp)) fun _ => .lifted _

theorem quiet_createDirectory (p : Path) : Quiet (h.recorded.createDirectory p) :=
  .bind (.record (by simp)) fun _ => .lifted _

theorem quiet_ensureChain (above : List Path) : Quiet (h.recorded.ensureChain above) := by
  induction above with
  | nil => exact .pure _
  | cons directory above ih =>
    refine .bind (.lifted _) fun there => ?_
    split
    · exact .pure _
    refine .bind (.lifted _) fun isFile => ?_
    split
    · exact .pure _
    refine .bind ih fun made => ?_
    split
    · exact .pure _
    · exact quiet_createDirectory h directory

theorem quiet_writeFile (p : Path) (t : Text) (marked : Bool) :
    Quiet (h.recorded.writeFile p t marked) := by
  refine .bind (quiet_ensureChain h _) fun made => ?_
  split
  · exact .pure _
  · exact quiet_write h p t marked

theorem quiet_place (c : Configuration) (a : Artifact) : Quiet (place h.recorded c a) := by
  unfold place
  split
  · exact .pure _
  split
  · exact .pure _
  refine .bind (quiet_writeFile h _ _ _) fun written => ?_
  split <;> exact .pure _

theorem said_printLine (on : Channel) (t : Text) (w : Trace σ) (channel : Channel) :
    said (exec (h.recorded.printLine on t) w).2 channel
      = said w channel ++ if on = channel then [h.layout t] else [] :=
  Journal.said_print w.1 on channel (h.layout t)

theorem said_forM_printLine {α : Type} (text : α → Text) (on : Channel) (as : List α) (w : Trace σ)
    (channel : Channel) :
    said (exec (as.forM fun a => h.recorded.printLine on (text a)) w).2 channel
      = said w channel ++ if on = channel then as.map fun a => h.layout (text a) else [] := by
  induction as generalizing w with
  | nil => simp
  | cons a as ih =>
    rw [exec_forM_cons, ih, said_printLine]
    split <;> simp

end Recorded

end BatchCompile
