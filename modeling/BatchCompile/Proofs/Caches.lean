import BatchCompile.Proofs.Closure.Agreement
import BatchCompile.Proofs.Closure.Consistent
import BatchCompile.Proofs.Hosts.Trees
import BatchCompile.Proofs.Placement.Bundles
import BatchCompile.Proofs.Run.Asking

/-!
# What caches answer

A cache asks its host a question once and then repeats the answer, however the host may change
meanwhile (`first_of_lookups`). So as long as a host does not change, a resolver with caches between
itself and the host finds what it finds without them (`gives_cached`); the caches combine a
directory and a name before they make them absolute, which is no other path.
-/

namespace BatchCompile

open BatchCompile.Path

/-! ## Lookups -/

/-- A question that a cache keeps the answer to. -/
inductive Question where
  | source (p : Path)
  | absolute (p : Path)
  | existence (p : Path)
  deriving DecidableEq, Repr

inductive Answer where
  | source (s : Source)
  | path (p : Path)
  | existence (there : Bool)
  deriving DecidableEq, Repr

namespace Question

variable {m : Type → Type} [Monad m] (h : Host m)

/-- What a host itself answers. A source that it cannot read is empty and has no mark. -/
def put : Question → m Answer
  | source p => do pure (.source (.orEmpty (← h.read p)))
  | absolute p => pure (.path (h.absolute p))
  | existence p => do pure (.existence (← h.fileExists p))

def lookUp : Question → StateT Caches m Answer
  | source p => do pure (.source (← Caches.source h p))
  | absolute p => do pure (.path (← Caches.absolute h p))
  | existence p => do pure (.existence (← Caches.fileExists h p))

end Question

def Caches.answer? (caches : Caches) : Question → Option Answer
  | .source p => (caches.sources.answer? p).map .source
  | .absolute p => (caches.resolved.answer? p).map .path
  | .existence p => (caches.existence.answer? p).map .existence

section

variable {σ : Type}

abbrev Noted (σ : Type) := StateT (List Question) (StateM σ)

/-- The host with every question noted that it is asked. Making a path absolute asks nothing but
where the host works. -/
def Host.noting (h : Host (StateM σ)) : Host (Noted σ) :=
  { (h.lift : Host (Noted σ)) with
    read := fun p => do
      modify (.source p :: ·)
      liftM (h.read p)
    fileExists := fun p => do
      modify (.existence p :: ·)
      liftM (h.fileExists p) }

/-- What happens around caches: a question is looked up, with the host as it is by then, or the
world changes. -/
inductive Move (σ : Type) where
  | lookUp (h : Host (StateM σ)) (q : Question)
  | change (f : σ → σ)

structure Lookup (σ : Type) where
  host : Host (StateM σ)
  question : Question
  before : σ
  answer : Answer
  after : σ
  /-- What the host was asked. -/
  asked : List Question

def lookups : List (Move σ) → Caches → σ → List (Lookup σ)
  | [], _, _ => []
  | .change f :: moves, caches, s => lookups moves caches (f s)
  | .lookUp h q :: moves, caches, s =>
    let (((answer, caches'), asked), s') := (q.lookUp h.noting).run caches [] s
    ⟨h, q, s, answer, s', asked⟩ :: lookups moves caches' s'

end

/-! ## One lookup -/

section

variable {σ : Type} (h : Host (StateM σ)) (p : Path) (caches : Caches) (s : σ)

/-- What a cache of sources asks a host that notes its questions. -/
def Host.reading : Noted σ Source := do
  match ← h.noting.read p with
  | .ok s => pure s
  | .error _ => pure ⟨[], .none⟩

theorem reading_eq :
    h.reading p [] s = ((.orEmpty (h.read p s).1, [.source p]), (h.read p s).2) := by
  show (match (h.read p s).1 with
    | .ok s => (pure s : Noted σ Source)
    | .error _ => pure ⟨[], .none⟩) [.source p] (h.read p s).2 = _
  cases (h.read p s).1 <;> rfl

theorem lookUp_source :
    ((Question.source p).lookUp h.noting).run caches [] s =
      let r := caches.sources.consult p (h.reading p) [] s
      (((.source r.1.1.1, { caches with sources := r.1.1.2 }), r.1.2), r.2) := rfl

theorem lookUp_absolute :
    ((Question.absolute p).lookUp h.noting).run caches [] s =
      let r := caches.resolved.consult p (pure (h.absolute p) : Noted σ Path) [] s
      (((.path r.1.1.1, { caches with resolved := r.1.1.2 }), r.1.2), r.2) := rfl

theorem lookUp_existence :
    ((Question.existence p).lookUp h.noting).run caches [] s =
      let r := caches.existence.consult p (h.noting.fileExists p) [] s
      (((.existence r.1.1.1, { caches with existence := r.1.1.2 }), r.1.2), r.2) := rfl

variable {caches} {q : Question}

/-- A question whose answer is kept is not put to the host. -/
theorem lookUp_kept {a : Answer} (ha : caches.answer? q = some a) :
    (q.lookUp h.noting).run caches [] s = (((a, caches), []), s) := by
  cases q with
  | source p =>
    obtain ⟨b, hb, rfl⟩ := Option.map_eq_some_iff.1 ha
    rw [lookUp_source, Memo.consult_kept _ hb]
    rfl
  | absolute p =>
    obtain ⟨b, hb, rfl⟩ := Option.map_eq_some_iff.1 ha
    rw [lookUp_absolute, Memo.consult_kept _ hb]
    rfl
  | existence p =>
    obtain ⟨b, hb, rfl⟩ := Option.map_eq_some_iff.1 ha
    rw [lookUp_existence, Memo.consult_kept _ hb]
    rfl

/-- A question without an answer is put to the host, once, and the answer is kept. -/
theorem lookUp_new (hn : caches.answer? q = none) :
    ∃ caches' asked, (q.lookUp h.noting).run caches [] s =
        ((((q.put h s).1, caches'), asked), (q.put h s).2) ∧ (asked = [] ∨ asked = [q]) ∧
      ∀ q', caches'.answer? q' = if q' = q then some (q.put h s).1 else caches.answer? q' := by
  cases q with
  | source p =>
    have hb : caches.sources.answer? p = none := Option.map_eq_none_iff.1 hn
    refine ⟨{ caches with sources := (p, .orEmpty (h.read p s).1) :: caches.sources },
      [.source p], ?_, .inr rfl, fun q' => ?_⟩
    · rw [lookUp_source, Memo.consult_new _ hb]
      show (let r := h.reading p [] s
        (((Answer.source r.1.1, { caches with sources := (p, r.1.1) :: caches.sources }),
          r.1.2), r.2)) = _
      rw [reading_eq]
      rfl
    · cases q' with
      | source p' =>
        simp only [Caches.answer?, Memo.answer?_cons, Question.source.injEq]
        split <;> rfl
      | absolute p' => rfl
      | existence p' => rfl
  | absolute p =>
    have hb : caches.resolved.answer? p = none := Option.map_eq_none_iff.1 hn
    refine ⟨{ caches with resolved := (p, h.absolute p) :: caches.resolved }, [], ?_, .inl rfl,
      fun q' => ?_⟩
    · rw [lookUp_absolute, Memo.consult_new _ hb]
      rfl
    · cases q' with
      | absolute p' =>
        simp only [Caches.answer?, Memo.answer?_cons, Question.absolute.injEq]
        split <;> rfl
      | source p' => rfl
      | existence p' => rfl
  | existence p =>
    have hb : caches.existence.answer? p = none := Option.map_eq_none_iff.1 hn
    refine ⟨{ caches with existence := (p, (h.fileExists p s).1) :: caches.existence },
      [.existence p], ?_, .inr rfl, fun q' => ?_⟩
    · rw [lookUp_existence, Memo.consult_new _ hb]
      rfl
    · cases q' with
      | existence p' =>
        simp only [Caches.answer?, Memo.answer?_cons, Question.existence.injEq]
        split <;> rfl
      | source p' => rfl
      | absolute p' => rfl

end

/-! ## Lookups one after the other -/

section

variable {σ : Type}

/-- A later lookup repeats the answer of an earlier one: the host is not asked. -/
structure Repeats (e l : Lookup σ) : Prop where
  answer : l.answer = e.answer
  after : l.after = l.before
  asked : l.asked = []

theorem asked_of_mem_lookups {moves : List (Move σ)} {caches : Caches} {s : σ} {l : Lookup σ}
    (hl : l ∈ lookups moves caches s) : l.asked = [] ∨ l.asked = [l.question] := by
  induction moves generalizing caches s with
  | nil => cases hl
  | cons move moves ih =>
    cases move with
    | change f => exact ih hl
    | lookUp h q =>
      rcases List.mem_cons.1 hl with rfl | hl
      · cases ha : caches.answer? q with
        | some a => exact .inl (congrArg (·.1.2) (lookUp_kept h s ha))
        | none =>
          obtain ⟨caches', asked, he, hasked, -⟩ := lookUp_new h s ha
          exact hasked.imp (congrArg (·.1.2) he).trans (congrArg (·.1.2) he).trans
      · exact ih hl

theorem lookups_of_kept {moves : List (Move σ)} {caches : Caches} {s : σ} {q : Question} {a : Answer}
    (ha : caches.answer? q = some a) :
    ∀ l ∈ lookups moves caches s, l.question = q →
      l.answer = a ∧ l.after = l.before ∧ l.asked = [] := by
  induction moves generalizing caches s with
  | nil => simp [lookups]
  | cons move moves ih =>
    cases move with
    | change f => exact ih ha
    | lookUp h q' =>
      rw [lookups]
      cases ha' : caches.answer? q' with
      | some a' =>
        rw [lookUp_kept h s ha']
        refine List.forall_mem_cons.2 ⟨?_, ih ha⟩
        rintro rfl
        exact ⟨Option.some.inj (ha'.symm.trans ha), rfl, rfl⟩
      | none =>
        obtain ⟨caches', asked, he, -, hkeeps⟩ := lookUp_new h s ha'
        have hne : q ≠ q' := by
          rintro rfl
          cases ha'.symm.trans ha
        rw [he]
        refine List.forall_mem_cons.2 ⟨fun e => absurd e.symm hne, ih ?_⟩
        rw [hkeeps, if_neg hne, ha]

theorem pairwise_lookups (moves : List (Move σ)) (caches : Caches) (s : σ) :
    (lookups moves caches s).Pairwise fun e l => l.question = e.question → Repeats e l := by
  induction moves generalizing caches s with
  | nil => exact .nil
  | cons move moves ih =>
    cases move with
    | change f => exact ih caches (f s)
    | lookUp h q =>
      have hkept : (((q.lookUp h.noting).run caches [] s).1.1.2).answer? q =
          some ((q.lookUp h.noting).run caches [] s).1.1.1 := by
        cases ha : caches.answer? q with
        | some a => rw [lookUp_kept h s ha, ha]
        | none =>
          obtain ⟨caches', asked, he, -, hkeeps⟩ := lookUp_new h s ha
          rw [he, hkeeps, if_pos rfl]
      refine List.pairwise_cons.2 ⟨fun l hl hq => ?_, ih _ _⟩
      obtain ⟨hanswer, hafter, hasked⟩ := lookups_of_kept hkept l hl hq
      exact ⟨hanswer, hafter, hasked⟩

theorem first_of_lookups {moves : List (Move σ)} {caches : Caches} {s : σ}
    {earlier later : List (Lookup σ)} {l : Lookup σ}
    (hl : lookups moves caches s = earlier ++ l :: later) (hn : caches.answer? l.question = none)
    (hfirst : ∀ e ∈ earlier, e.question ≠ l.question) :
    (l.answer, l.after) = l.question.put l.host l.before := by
  induction moves generalizing caches s earlier with
  | nil => simp [lookups] at hl
  | cons move moves ih =>
    cases move with
    | change f => exact ih hl hn hfirst
    | lookUp h q =>
      rw [lookups] at hl
      cases ha : caches.answer? q with
      | some a =>
        rw [lookUp_kept h s ha] at hl
        cases earlier with
        | nil =>
          obtain ⟨rfl, -⟩ := List.cons.inj hl
          cases ha.symm.trans hn
        | cons e earlier =>
          exact ih (List.cons.inj hl).2 hn (List.forall_mem_cons.1 hfirst).2
      | none =>
        obtain ⟨caches', asked, he, -, hkeeps⟩ := lookUp_new h s ha
        rw [he] at hl
        cases earlier with
        | nil =>
          obtain ⟨rfl, -⟩ := List.cons.inj hl
          rfl
        | cons e earlier =>
          obtain ⟨rfl, htail⟩ := List.cons.inj hl
          obtain ⟨hne, hfirst⟩ := List.forall_mem_cons.1 hfirst
          refine ih htail ?_ hfirst
          rw [hkeeps, if_neg (Ne.symm hne), hn]

/-- No question is put to a host twice. -/
theorem nodup_asked (moves : List (Move σ)) (caches : Caches) (s : σ) :
    ((lookups moves caches s).flatMap Lookup.asked).Nodup := by
  refine List.nodup_flatMap.2 ⟨fun l hl => ?_, ?_⟩
  · rcases asked_of_mem_lookups hl with he | he <;> simp [he]
  · refine (pairwise_lookups moves caches s).imp_of_mem fun {e l} he hl hrepeats q hq hq' => ?_
    have hof : ∀ {l : Lookup σ}, l ∈ lookups moves caches s → q ∈ l.asked → l.question = q := by
      intro l hl hq
      rcases asked_of_mem_lookups hl with ha | ha <;> simp_all
    have hsame := (hrepeats ((hof hl hq').trans (hof he hq).symm)).asked
    rw [hsame] at hq'
    cases hq'

end

/-! ## Hosts that do not change -/

variable {m : Type → Type} [Monad m]

/-- Services that ask a host directly: a name is resolved in one step. -/
def Services.direct (h : Host m) : Services m where
  fileExists := h.fileExists
  directoryExists := h.directoryExists
  parentDirectory p := pure (dirName p)
  resolve name directory := pure (Path.resolve h.cwd (directory.toList ++ [stripQuotes name]))
  sourceText p := do pure (Source.orEmpty (← h.read p)).text
  pathBound := h.pathBound

/-- What a host answers a resolver, whatever else it does. -/
structure Host.Answers (o : Outlook m) (h : Host m) (truth : Host Id) : Prop where
  cwd : h.cwd = truth.cwd
  read : ∀ p, o.gives (h.read p) (truth.read p).run
  fileExists : ∀ p, o.gives (h.fileExists p) (truth.fileExists p).run
  pathBound : o.gives h.pathBound truth.pathBound.run

/-- What a host answers in one world, for ever. -/
def Host.frozen {σ : Type} (h : Host (StateM σ)) (s : σ) : Host Id where
  cwd := h.cwd
  read p := (h.read p s).1
  write p t marked := (h.write p t marked s).1
  delete p := (h.delete p s).1
  fileExists p := (h.fileExists p s).1
  directoryExists p := (h.directoryExists p s).1
  createDirectory p := (h.createDirectory p s).1
  print channel t := (h.print channel t s).1
  layout := h.layout
  pathBound := (h.pathBound s).1

theorem Memory.answers_host (cwd : Path) (tree : Memory) :
    (host cwd).Answers (.of (· = tree)) ((host cwd).frozen tree) where
  cwd := rfl
  read p := by
    rintro m rfl
    exact ⟨rfl, congrArg Prod.snd (read_host cwd p m)⟩
  fileExists _ := by
    rintro _ rfl
    exact ⟨rfl, rfl⟩
  pathBound := by
    rintro _ rfl
    exact ⟨rfl, rfl⟩

/-- The caches hold what the host answers. -/
structure Caches.Told (truth : Host Id) (caches : Caches) : Prop where
  sources : ∀ e ∈ caches.sources, e.2 = .orEmpty (truth.read e.1).run
  resolved : ∀ e ∈ caches.resolved, e.2 = truth.absolute e.1
  existence : ∀ e ∈ caches.existence, e.2 = (truth.fileExists e.1).run

/-- What actions with caches give back, if these hold what the host answers. -/
def Outlook.cached (o : Outlook m) (truth : Host Id) : Outlook (StateT Caches m) where
  gives x a := ∀ caches, caches.Told truth →
    ∃ caches', caches'.Told truth ∧ o.gives (x.run caches) (a, caches')
  gives_pure a caches hc := ⟨caches, hc, o.gives_pure _⟩
  gives_bind hx hf caches hc := by
    obtain ⟨caches₁, hc₁, hx⟩ := hx caches hc
    obtain ⟨caches₂, hc₂, hf⟩ := hf caches₁ hc₁
    exact ⟨caches₂, hc₂, o.gives_bind hx hf⟩

/-- Services that first combine a directory with a name, and then make them absolute. -/
def Services.combining (truth : Host Id) : Services Id :=
  { Services.direct truth with
    resolve := fun name directory =>
      let bare := stripQuotes name
      let place := match directory with
        | some directory => if isRooted bare then bare else combine directory bare
        | none => bare
      Path.forward (truth.absolute place) }

theorem gives_consult {o : Outlook m} {α : Type} {memo : Memo α} {f : Path → α}
    (hm : ∀ e ∈ memo, e.2 = f e.1) {p : Path} {ask : m α} (ha : o.gives ask (f p)) :
    ∃ memo', (∀ e ∈ memo', e.2 = f e.1) ∧ o.gives (memo.consult p ask) (f p, memo') := by
  cases h : memo.answer? p with
  | some a =>
    obtain rfl : a = f p := hm _ (Memo.mem_of_answer? h)
    rw [Memo.consult_kept _ h]
    exact ⟨memo, hm, o.gives_pure _⟩
  | none =>
    rw [Memo.consult_new _ h]
    exact ⟨(p, f p) :: memo, List.forall_mem_cons.2 ⟨rfl, hm⟩,
      o.gives_bind ha (o.gives_pure _)⟩

theorem gives_lookup {o : Outlook m} {α : Type} {memo memo' : Memo α} {p : Path} {ask : m α} {a : α}
    (put : Memo α → Caches) (caches : Caches) (hc : o.gives (memo.consult p ask) (a, memo')) :
    o.gives (StateT.run (do
      let r ← liftM (n := StateT Caches m) (memo.consult p ask)
      set (put r.2)
      pure r.1) caches) (a, put memo') :=
  o.gives_bind (o.gives_bind hc (o.gives_pure _)) (o.gives_bind (o.gives_pure _) (o.gives_pure _))

section

variable {o : Outlook m} {h : Host m} {truth : Host Id} (ha : h.Answers o truth)

include ha

theorem gives_source (p : Path) :
    (o.cached truth).gives (Caches.source h p) (.orEmpty (truth.read p).run) := by
  intro caches hc
  have hask : o.gives (do match ← h.read p with
      | .ok s => pure s
      | .error _ => pure ⟨[], .none⟩) (Source.orEmpty (truth.read p).run) := by
    refine o.gives_bind (ha.read p) ?_
    cases (truth.read p).run <;> exact o.gives_pure _
  obtain ⟨memo, hm, hconsult⟩ := gives_consult
    (f := fun p => Source.orEmpty (truth.read p).run) hc.sources hask
  exact ⟨{ caches with sources := memo }, ⟨hm, hc.resolved, hc.existence⟩,
    o.gives_bind (o.gives_pure (caches, caches))
      (gives_lookup (fun memo => { caches with sources := memo }) caches hconsult)⟩

theorem gives_absolute (p : Path) :
    (o.cached truth).gives (Caches.absolute h p) (truth.absolute p) := by
  intro caches hc
  have hask : o.gives (pure (h.absolute p)) (truth.absolute p) := by
    rw [Host.absolute, ha.cwd]
    exact o.gives_pure _
  obtain ⟨memo, hm, hconsult⟩ := gives_consult hc.resolved hask
  exact ⟨{ caches with resolved := memo }, ⟨hc.sources, hm, hc.existence⟩,
    o.gives_bind (o.gives_pure (caches, caches))
      (gives_lookup (fun memo => { caches with resolved := memo }) caches hconsult)⟩

theorem gives_fileExists (p : Path) :
    (o.cached truth).gives (Caches.fileExists h p) (truth.fileExists p).run := by
  intro caches hc
  obtain ⟨memo, hm, hconsult⟩ := gives_consult (f := fun p => (truth.fileExists p).run)
    hc.existence (ha.fileExists p)
  exact ⟨{ caches with existence := memo }, ⟨hc.sources, hc.resolved, hm⟩,
    o.gives_bind (o.gives_pure (caches, caches))
      (gives_lookup (fun memo => { caches with existence := memo }) caches hconsult)⟩

/-- With caches, services combine first, but for that they answer like the host. -/
theorem consistent_cached :
    Consistent (o.cached truth) { Caches.services h with pathBound := liftM h.pathBound }
      (Services.combining truth) where
  fileExists := gives_fileExists ha
  parentDirectory _ caches hc := ⟨caches, hc, o.gives_pure _⟩
  resolve _ _ :=
    (o.cached truth).gives_bind (gives_absolute ha _) ((o.cached truth).gives_pure _)
  sourceText p := (o.cached truth).gives_bind (gives_source ha p) ((o.cached truth).gives_pure _)
  pathBound caches hc := ⟨caches, hc, o.gives_bind ha.pathBound (o.gives_pure _)⟩

end

/-! ## One step or two -/

theorem anchored_of_place {truth : Host Id} {directory : Option Path}
    (hd : (Services.direct truth).Place Anchored directory) : ∀ d ∈ directory, Anchored d := by
  rintro d rfl
  obtain hnone | ⟨p, hp, hdir⟩ := hd
  · cases hnone
  · exact hp.dirName hdir

theorem forward_resolve_combine (cwd : Path) {d b : Path} (hd : Anchored d)
    (hb : isRooted b = false) : forward (resolve cwd [combine d b]) = resolve cwd [d, b] := by
  have hne : d ≠ [] := by
    rintro rfl
    cases hd.isRooted
  have hstep : follow (forward cwd) d = d := by
    rw [follow, if_neg hne, if_pos hd.isRooted, hd.forward]
  by_cases hnil : b = []
  · subst hnil
    have hcombine : combine d [] = normalize d := by
      cases d with
      | nil => exact absurd rfl hne
      | cons c d => rfl
    have hanch : Anchored (normalize d) := anchored_normalize hd.isRooted
    rw [hcombine, resolve_anchored cwd hanch, hanch.forward, resolve, List.foldl_cons, hstep,
      List.foldl_cons, List.foldl_nil, follow, if_pos rfl]
  · have hcombine : combine d b = normalize (d ++ '/' :: b) := by
      cases d with
      | nil => exact absurd rfl hne
      | cons c d =>
        cases b with
        | nil => exact absurd rfl hnil
        | cons c' b => rfl
    have hanch : Anchored (combine d b) := anchored_combine hd.isRooted hnil
    rw [resolve_anchored cwd hanch, hanch.forward, hcombine, resolve, List.foldl_cons, hstep,
      List.foldl_cons, List.foldl_nil, follow, if_neg hnil, hb]
    rfl

/-- From a rooted working directory the services that combine first name the same paths. -/
theorem agree_combining {truth : Host Id} (hroot : isRooted truth.cwd = true) :
    (Services.direct truth).Agree (.combining truth) Anchored fun _ => True where
  parentDirectory _ _ := rfl
  resolve name directory hd := by
    have hanch := anchored_of_place hd
    show forward (truth.absolute _) = resolve truth.cwd (directory.toList ++ [stripQuotes name])
    cases directory with
    | none => exact (anchored_resolve hroot _).forward
    | some d =>
      cases hb : isRooted (stripQuotes name) with
      | true =>
        have hfollow : ∀ place, follow place (stripQuotes name) = forward (stripQuotes name) := by
          intro place
          have hne : stripQuotes name ≠ [] := by
            intro hnil
            rw [hnil] at hb
            cases hb
          rw [follow, if_neg hne, if_pos hb]
        have hsame : resolve truth.cwd [stripQuotes name] =
            resolve truth.cwd [d, stripQuotes name] := by
          simp only [resolve, List.foldl_cons, List.foldl_nil, hfollow]
        exact ((anchored_resolve hroot _).forward).trans hsame
      | false => exact forward_resolve_combine truth.cwd (hanch d rfl) hb
  means _ _ _ := anchored_resolve_all hroot _
  imports _ _ _ := ⟨trivial, trivial⟩
  fileExists _ _ _ := rfl
  sourceText _ _ _ _ := rfl

/-! ## Resolvers with caches -/

theorem visit_pathBound (services : Services m) (bound : m Nat) (caseSensitive : Bool) (depth : Nat)
    (asker : Option Path) (p : Path) (w : Walk) :
    Walk.visit { services with pathBound := bound } caseSensitive depth asker p w =
      Walk.visit services caseSensitive depth asker p w := by
  induction depth generalizing asker p w with
  | zero => rfl
  | succ depth ih =>
    have hinner : Walk.visit { services with pathBound := bound } caseSensitive depth (some p) =
        Walk.visit services caseSensitive depth (some p) := by
      funext q v
      exact ih (some p) q v
    unfold Walk.visit
    rw [hinner]
    rfl

section

variable {o : Outlook m} {h : Host m} {truth : Host Id} (ha : h.Answers o truth)
  (hroot : isRooted truth.cwd = true) (entries : List Path) (caseSensitive : Bool)

include ha

theorem gives_direct : o.gives (Resolver.directives entries (Services.direct h) caseSensitive)
    (Resolver.directives entries (Services.direct truth) caseSensitive).run := by
  refine gives_directives ⟨ha.fileExists, fun _ => o.gives_pure _, fun name directory => ?_,
    fun p => o.gives_bind (ha.read p) (o.gives_pure (Source.orEmpty (truth.read p).run).text),
    ha.pathBound⟩ entries caseSensitive
  rw [Services.direct, ha.cwd]
  exact o.gives_pure _

include hroot

theorem gives_cached :
    ∃ caches, o.gives ((Resolver.directives entries (Caches.services h) caseSensitive).run .empty)
      ((Resolver.directives entries (Services.direct truth) caseSensitive).run, caches) := by
  have hwithin : ∀ r : Resolution, r.Within fun _ => True := fun r =>
    ⟨fun _ _ => trivial, fun _ _ _ _ => trivial⟩
  rw [← directives_congr (agree_combining hroot) rfl (hwithin _)]
  have hcons := consistent_cached ha
  let services := Caches.services h
  let depth := truth.pathBound.run + 1
  have hstep : ∀ (w : Walk) (entry : Path), (o.cached truth).gives
      (services.resolve entry none >>= fun p =>
        Walk.visit services caseSensitive depth none p w)
      (Walk.visit (Services.combining truth) caseSensitive depth none
        ((Services.combining truth).resolve entry none).run w).run := by
    intro w entry
    refine (o.cached truth).gives_bind (hcons.resolve entry none) ?_
    rw [← visit_pathBound services (liftM h.pathBound)]
    exact gives_visit hcons caseSensitive depth none _ w
  have hempty : Caches.empty.Told truth := ⟨by simp [Caches.empty], by simp [Caches.empty],
    by simp [Caches.empty]⟩
  obtain ⟨caches, -, hwalk⟩ := gives_foldlM hstep entries Walk.start .empty hempty
  have hbound : o.gives (services.pathBound.run .empty) (truth.pathBound.run, .empty) :=
    o.gives_bind (o.gives_bind ha.pathBound (o.gives_pure _))
      (o.gives_bind (o.gives_pure (Caches.empty, Caches.empty)) (o.gives_pure _))
  exact ⟨caches, o.gives_bind hbound (o.gives_bind hwalk (o.gives_pure _))⟩

end

/-- Caches are sticky and cannot be told from their host. Whatever hosts stand behind them, and
however the world changes between, a lookup returns what the host answered when the question was
first looked up, and the host is never asked a question twice. So while a host that works at a
rooted directory does not change, the resolver with caches finds exactly what it finds without. -/
theorem lookups_sticky_transparent {σ : Type} :
    (∀ (moves : List (Move σ)) (s : σ),
      let log := lookups moves .empty s
      (∀ earlier l later, log = earlier ++ l :: later →
        (∀ e ∈ earlier, e.question ≠ l.question) →
          (l.answer, l.after) = l.question.put l.host l.before) ∧
      log.Pairwise (fun e l => l.question = e.question → Repeats e l) ∧
      (log.flatMap Lookup.asked).Nodup) ∧
    ∀ (h : Host (StateM σ)) (kept : σ → Prop) (truth : Host Id), h.Answers (.of kept) truth →
      isRooted h.cwd = true → ∀ (entries : List Path) (caseSensitive : Bool) (s : σ), kept s →
        ((Resolver.directives entries (Caches.services h) caseSensitive).run .empty s).1.1 =
          (Resolver.directives entries (Services.direct h) caseSensitive s).1 := by
  refine ⟨fun moves s => ⟨fun earlier l later hl hfirst => ?_, pairwise_lookups moves _ s,
    nodup_asked moves _ s⟩, fun h kept truth ha hroot entries caseSensitive s hs => ?_⟩
  · refine first_of_lookups hl ?_ hfirst
    cases l.question <;> rfl
  · obtain ⟨caches, hcached⟩ := gives_cached ha (ha.cwd ▸ hroot) entries caseSensitive
    have hdirect := gives_direct ha entries caseSensitive
    rw [(hcached s hs).1, (hdirect s hs).1]

/-- A source that refers to another one, which exists, and imports a third, which does not. -/
def threeNamed : Memory where
  files := [("/work/a.ts".toList,
      ⟨"/// <reference path=\"sub/../b.ts\"/>\nimport \"./c\";\n".toList, .none⟩),
    ("/work/b.ts".toList, ⟨[], .none⟩)]
  directories := ["/".toList, "/work".toList]
  unreadable := []
  unwritable := []

theorem lookups_sticky_transparent_three :
    let host := Memory.host "/work".toList
    let entries := ["a.ts".toList, "\"b.ts\"".toList]
    let cached := ((Resolver.directives entries (Caches.services host) false).run .empty
      threeNamed).1.1
    cached = (Resolver.directives entries (Services.direct host) false threeNamed).1 ∧
      cached.paths = ["/work/b.ts".toList, "/work/a.ts".toList] ∧ cached.diagnostics.length = 1 := by
  intro host entries cached
  have hsame : cached = (Resolver.directives entries (Services.direct host) false threeNamed).1 :=
    lookups_sticky_transparent.2 host (· = threeNamed) _ (Memory.answers_host _ threeNamed)
      (by decide) entries false threeNamed rfl
  refine ⟨hsame, ?_⟩
  rw [hsame]
  decide +kernel

end BatchCompile
