import BatchCompile.Proofs.Path.Segments
import Mathlib.Data.List.Induction

/-!
# Places

A place is the list of segments that leads to it from the top. `settle` goes on from a place by
segments, and `land` by a whole path, which may start at the top. Resolving paths one after the
other is landing on them (`resolve_eq`), and it does not matter if a path is normalized first
(`land_normalize`).
-/

namespace BatchCompile.Path

/-! ## Going on by segments -/

/-- The place reached from a place by segments: `.` stays, and `..` goes back where it can. -/
def settle (place ss : List Text) : List Text :=
  (ss.foldl (Parts.push true) place.reverse).reverse

@[simp] theorem settle_nil (place : List Text) : settle place [] = place :=
  List.reverse_reverse place

theorem settle_append (place ss us : List Text) :
    settle place (ss ++ us) = settle (settle place ss) us := by
  rw [settle, List.foldl_append, settle, settle, List.reverse_reverse]

theorem settle_cons (place : List Text) (s : Text) (ss : List Text) :
    settle place (s :: ss) = settle (settle place [s]) ss :=
  settle_append place [s] ss

@[simp] theorem settle_self (place : List Text) : settle place [self] = place :=
  List.reverse_reverse place

theorem settle_down (place : List Text) {s : Text} (h₁ : s ≠ self) (h₂ : s ≠ up) :
    settle place [s] = place ++ [s] := by
  simp [settle, Parts.push, h₁, h₂]

theorem settle_up (place : List Text) {s : Text} (h : s ≠ up) :
    settle (place ++ [s]) [up] = place := by
  have hs : up ≠ self := by decide
  simp [settle, Parts.push, hs, h]

theorem settle_top : settle [] [up] = [] := by decide

theorem settle_ordinary (place : List Text) {ss : List Text} (h : ∀ s ∈ ss, Ordinary s) :
    settle place ss = place ++ ss := by
  induction ss generalizing place with
  | nil => simp
  | cons s ss ih =>
    have hs := h s List.mem_cons_self
    rw [settle_cons, settle_down place hs.ne_self hs.ne_up,
      ih _ fun u hu => h u (List.mem_cons_of_mem _ hu)]
    simp

theorem settle_ups (place : List Text) {ss : List Text} (h : ∀ s ∈ ss, Ordinary s) :
    settle (place ++ ss) (List.replicate ss.length up) = place := by
  induction ss using List.reverseRecOn with
  | nil => simp
  | append_singleton ss s ih =>
    rw [List.length_append, List.length_singleton, List.replicate_succ, settle_cons,
      ← List.append_assoc, settle_up _ (h s (by simp)).ne_up,
      ih fun u hu => h u (List.mem_append_left _ hu)]

theorem ordinary_settle {place ss : List Text} (hp : ∀ s ∈ place, Ordinary s)
    (hs : ∀ s ∈ ss, IsSegment s) : ∀ s ∈ settle place ss, Ordinary s := by
  induction ss generalizing place with
  | nil => simpa using hp
  | cons s ss ih =>
    rw [settle_cons]
    refine ih ?_ fun u hu => hs u (List.mem_cons_of_mem _ hu)
    by_cases h₁ : s = self
    · rwa [h₁, settle_self]
    by_cases h₂ : s = up
    · subst h₂
      cases place using List.reverseRecOn with
      | nil => simp [settle_top]
      | append_singleton place u =>
        rw [settle_up place (hp u (by simp)).ne_up]
        exact fun v hv => hp v (List.mem_append_left _ hv)
    · rw [settle_down place h₁ h₂]
      intro u hu
      rcases List.mem_append.1 hu with hu | hu
      · exact hp u hu
      · rw [List.mem_singleton.1 hu]
        exact ⟨hs s List.mem_cons_self, h₁, h₂⟩

theorem self_notMem_foldl_push {anchored : Bool} {kept ss : List Text} (h : self ∉ kept) :
    self ∉ ss.foldl (Parts.push anchored) kept := by
  induction ss generalizing kept with
  | nil => exact h
  | cons s ss ih =>
    refine ih ?_
    unfold Parts.push
    split
    · exact h
    split
    · split
      · split <;> simp [self, up]
      · split
        · split <;> simp_all [self, up]
        · simp_all
    · simp_all [eq_comm]

/-- Segments may be folded among themselves before a place goes on by them. -/
theorem settle_fold (place ss : List Text) :
    settle place (Parts.fold ⟨.here, ss⟩).segments = settle place ss := by
  show settle place (ss.foldl (Parts.push false) []).reverse = settle place ss
  induction ss using List.reverseRecOn with
  | nil => rfl
  | append_singleton ss s ih =>
    have hself : self ∉ ss.foldl (Parts.push false) [] := self_notMem_foldl_push List.not_mem_nil
    rw [List.foldl_append, List.foldl_cons, List.foldl_nil, settle_append place ss [s], ← ih]
    generalize ss.foldl (Parts.push false) [] = kept at hself
    by_cases h₁ : s = self
    · simp [Parts.push, h₁]
    by_cases h₂ : s = up
    · subst h₂
      match kept with
      | [] => simp [Parts.push, h₁]
      | last :: before =>
        by_cases h₃ : last = up
        · rw [show Parts.push false (last :: before) up = up :: last :: before by
            simp [Parts.push, h₁, h₃], List.reverse_cons, settle_append]
        · have h₄ : last ≠ self := fun e => hself (by simp [e])
          rw [show Parts.push false (last :: before) up = before by simp [Parts.push, h₁, h₃],
            List.reverse_cons, settle_append, settle_down _ h₄ h₃, settle_up _ h₃]
    · rw [show Parts.push false kept s = s :: kept by simp [Parts.push, h₁, h₂],
        List.reverse_cons, settle_append]

/-! ## Landing on paths -/

/-- The place reached from a place by a path: from the top if the path starts there. -/
def land (place : List Text) (q : Path) : List Text :=
  let (root, rest) := cutRoot (forward q)
  settle (if root.anchored then [] else place) (segmentsOf rest)

theorem land_of_top (place : List Text) {q t : Path} (h : forward q = '/' :: t) :
    land place q = settle [] (segmentsOf t) := by
  rw [land, h]
  rfl

theorem land_of_here (place : List Text) {q : Path} (hs : (forward q).head? ≠ some '/')
    (hd : isDrive (forward q) = false) : land place q = settle place (segmentsOf (forward q)) := by
  rw [land, cutRoot_here hs hd]
  rfl

theorem normalize_of_top {p : Path} (h : FromTop p) : normalize p = atTop (land [] p) := by
  obtain ⟨t, ht⟩ := h.forward_eq
  rw [land_of_top [] ht, normalize, ht]
  rfl

theorem ordinary_land_top {p : Path} (h : FromTop p) : ∀ s ∈ land [] p, Ordinary s := by
  obtain ⟨t, ht⟩ := h.forward_eq
  rw [land_of_top [] ht]
  refine ordinary_settle (by simp) fun s hs => isSegment_of_mem_segmentsOf (fun hb => ?_) hs
  exact backslash_notMem_forward p (ht ▸ List.mem_cons_of_mem _ hb)

theorem ordinary_land {place : List Text} {q : Path} (hp : ∀ s ∈ place, Ordinary s)
    (hd : isDrive (forward q) = false) : ∀ s ∈ land place q, Ordinary s := by
  by_cases hs : (forward q).head? = some '/'
  · have : FromTop q := hs
    obtain ⟨t, ht⟩ := this.forward_eq
    rw [land_of_top place ht, ← land_of_top [] ht]
    exact ordinary_land_top this
  · rw [land_of_here place hs hd]
    exact ordinary_settle hp fun s => isSegment_of_mem_segmentsOf (backslash_notMem_forward q)

theorem land_follow {p q : Path} (hp : FromTop p) (hd : isDrive (forward q) = false) :
    FromTop (follow p q) ∧ land [] (follow p q) = land (land [] p) q := by
  obtain ⟨t, ht⟩ := hp.forward_eq
  unfold follow
  split
  · rename_i hq
    subst hq
    exact ⟨hp, (settle_nil _).symm⟩
  by_cases hs : (forward q).head? = some '/'
  · have htop : FromTop q := hs
    obtain ⟨u, hu⟩ := htop.forward_eq
    have hroot : isRooted q = true := by rw [isRooted, hu]; rfl
    have hf : forward (forward q) = '/' :: u := by rw [forward_forward, hu]
    rw [if_pos hroot, land_of_top _ hu, land_of_top _ hf]
    exact ⟨by rw [FromTop, hf]; rfl, rfl⟩
  · have hroot : isRooted q = false := by rw [isRooted, cutRoot_here hs hd]; rfl
    have hf : forward (p ++ '/' :: q) = '/' :: (t ++ '/' :: forward q) := by
      rw [forward_append, ht, forward_cons_slash]
      rfl
    rw [if_neg (by simp [hroot]), land_of_here _ hs hd, land_of_top _ ht, land_of_top _ hf,
      segmentsOf_append_slash, settle_append]
    exact ⟨by rw [FromTop, hf]; rfl, rfl⟩

/-- Resolving paths from the top is landing on them one after the other. -/
theorem resolve_eq {cwd : Path} {qs : List Path} (hc : FromTop cwd)
    (hq : ∀ q ∈ qs, isDrive (forward q) = false) :
    resolve cwd qs = atTop (qs.foldl land (land [] cwd)) := by
  have key : ∀ (qs : List Path) (p : Path), FromTop p → (∀ q ∈ qs, isDrive (forward q) = false) →
      normalize (qs.foldl follow p) = atTop (qs.foldl land (land [] p)) := by
    intro qs
    induction qs with
    | nil => exact fun p hp _ => normalize_of_top hp
    | cons q qs ih =>
      intro p hp hq
      obtain ⟨h₁, h₂⟩ := land_follow hp (hq q List.mem_cons_self)
      rw [List.foldl_cons, List.foldl_cons, ← h₂]
      exact ih _ h₁ fun r hr => hq r (List.mem_cons_of_mem _ hr)
  have hf : FromTop (forward cwd) := by rw [FromTop, forward_forward]; exact hc
  have hl : land [] (forward cwd) = land [] cwd := by rw [land, land, forward_forward]
  rw [resolve, key qs (forward cwd) hf hq, hl]

theorem land_atTop (place : List Text) {ss : List Text} (h : ∀ s ∈ ss, Ordinary s) :
    land place (atTop ss) = ss := by
  have hs := isSegment_all h
  rw [land_of_top place (forward_atTop hs), segmentsOf_join hs, settle_ordinary [] h]
  rfl

theorem normalize_atTop {ss : List Text} (h : ∀ s ∈ ss, Ordinary s) :
    normalize (atTop ss) = atTop ss := by
  rw [normalize_of_top (fromTop_atTop ss), land_atTop [] h]

theorem resolve_atTop {cwd : Path} {ss : List Text} (hc : FromTop cwd) (h : ∀ s ∈ ss, Ordinary s) :
    resolve cwd [atTop ss] = atTop ss := by
  have hd : isDrive (forward (atTop ss)) = false := by
    rw [forward_atTop (isSegment_all h)]
    exact isDrive_slash _
  rw [resolve_eq hc (by simpa using hd), List.foldl_cons, List.foldl_nil, land_atTop _ h]

/-! ## Below a place -/

/-- One path lies strictly below another: it goes on from there by further segments. -/
def Below (place p : Path) : Prop :=
  ∃ ss, ss ≠ [] ∧ Parts.of p = ⟨(Parts.of place).root, (Parts.of place).segments ++ ss⟩

theorem root_normalize_of_drive {p : Path} (h : isDrive (forward p) = true) :
    (Parts.of (normalize p)).root ≠ .top := by
  intro htop
  obtain ⟨letter, slash, hslash, hroot⟩ := root_of_isDrive h
  have hhead := head?_of_cutRoot htop
  rw [normalize, partsOf_eq, Parts.fold, Parts.text, hroot] at hhead
  cases slash <;> simp [Root.text, hslash] at hhead

theorem resolve_of_below {cwd q : Path} (hc : FromTop cwd)
    (h : Below (normalize cwd) (resolve cwd [q])) :
    ∃ ss, ss ≠ [] ∧ (∀ s ∈ ss, Ordinary s) ∧ land (land [] cwd) q = land [] cwd ++ ss ∧
      resolve cwd [q] = atTop (land [] cwd ++ ss) := by
  obtain ⟨ss, hss, hp⟩ := h
  have hcwd := ordinary_land_top hc
  rw [normalize_of_top hc, of_atTop (isSegment_all hcwd)] at hp
  have hd : isDrive (forward q) = false := by
    rw [Bool.eq_false_iff]
    intro hd
    obtain ⟨letter, slash, -, hroot⟩ := root_of_isDrive hd
    have hq : q ≠ [] := by
      rintro rfl
      cases hd
    have hrooted : isRooted q = true := by
      rw [isRooted, hroot]
      rfl
    have hr : resolve cwd [q] = normalize (forward q) := by
      rw [resolve, List.foldl_cons, List.foldl_nil, follow, if_neg hq, if_pos hrooted]
    rw [hr] at hp
    exact root_normalize_of_drive (p := forward q) (by rwa [forward_forward])
      (congrArg Parts.root hp)
  have hland := ordinary_land hcwd hd
  have hr : resolve cwd [q] = atTop (land (land [] cwd) q) := resolve_eq hc (by simpa using hd)
  rw [hr, of_atTop (isSegment_all hland)] at hp
  have he : land (land [] cwd) q = land [] cwd ++ ss := congrArg Parts.segments hp
  exact ⟨ss, hss, fun s hm => hland s (he ▸ List.mem_append_right _ hm), he, by rw [hr, he]⟩

/-! ## Paths that start anywhere -/

theorem forward_join {ss : List Text} (h : ∀ s ∈ ss, IsSegment s) :
    forward (Text.join ['/'] ss) = Text.join ['/'] ss :=
  forward_eq_self (backslash_notMem_join h)

theorem land_join (place : List Text) {ss : List Text}
    (h : ∀ s ∈ ss, IsSegment s ∧ isDrive s = false) :
    land place (Text.join ['/'] ss) = settle place ss := by
  have hs : ∀ s ∈ ss, IsSegment s := fun s hm => (h s hm).1
  cases ss with
  | nil => rfl
  | cons s ss =>
    have h₁ : (forward (Text.join ['/'] (s :: ss))).head? ≠ some '/' := by
      rw [forward_join hs]
      exact head?_join (hs s List.mem_cons_self)
    have h₂ : isDrive (forward (Text.join ['/'] (s :: ss))) = false := by
      rw [forward_join hs, isDrive_join]
      exact (h s List.mem_cons_self).2
    rw [land_of_here place h₁ h₂, forward_join hs, segmentsOf_join hs]

theorem land_self (place : List Text) : land place self = place := by
  rw [land_of_here place (by decide) (by decide)]
  exact settle_self place

theorem mem_foldl_push {anchored : Bool} {kept ss : List Text} {s : Text}
    (h : s ∈ ss.foldl (Parts.push anchored) kept) : s ∈ kept ∨ s ∈ ss ∨ s = up := by
  induction ss generalizing kept with
  | nil => exact .inl h
  | cons u ss ih =>
    rcases ih h with h | h | h
    · unfold Parts.push at h
      split at h
      · exact .inl h
      split at h
      · split at h
        · split at h <;> simp_all
        · split at h
          · split at h <;> simp_all
          · exact .inl (List.mem_cons_of_mem _ h)
      · rcases List.mem_cons.1 h with rfl | h
        · exact .inr (.inl List.mem_cons_self)
        · exact .inl h
    · exact .inr (.inl (List.mem_cons_of_mem _ h))
    · exact .inr (.inr h)

theorem isSegment_up : IsSegment up :=
  ⟨by decide, by decide, by decide⟩

theorem normalize_of_here {p : Path} (hs : (forward p).head? ≠ some '/') (h : DriveFree p) :
    ∃ ss, (∀ s ∈ ss, IsSegment s ∧ isDrive s = false) ∧ normalize p = Parts.text ⟨.here, ss⟩
      ∧ ∀ place, settle place ss = settle place (segmentsOf (forward p)) := by
  refine ⟨(Parts.fold ⟨.here, segmentsOf (forward p)⟩).segments, fun s hm => ?_, ?_,
    fun place => settle_fold place _⟩
  · rcases mem_foldl_push (List.mem_reverse.1 hm) with hm | hm | rfl
    · cases hm
    · exact ⟨isSegment_of_mem_segmentsOf (backslash_notMem_forward p) hm,
        h s (List.mem_filter.1 hm).1⟩
    · exact ⟨isSegment_up, rfl⟩
  · rw [normalize, partsOf_eq, cutRoot_here hs h.isDrive_forward]
    rfl

theorem land_text_here (place : List Text) {ss : List Text}
    (h : ∀ s ∈ ss, IsSegment s ∧ isDrive s = false) :
    land place (Parts.text ⟨.here, ss⟩) = settle place ss := by
  unfold Parts.text
  split
  · rename_i hnil
    obtain rfl : ss = [] := hnil.2
    rw [land_self, settle_nil]
  · exact land_join place h

/-- It does not matter whether a path without drives is normalized before it is followed. -/
theorem land_normalize (place : List Text) {p : Path} (h : DriveFree p) :
    land place (normalize p) = land place p := by
  by_cases hs : (forward p).head? = some '/'
  · have htop : FromTop p := hs
    obtain ⟨t, ht⟩ := htop.forward_eq
    rw [normalize_of_top htop, land_atTop place (ordinary_land_top htop), land_of_top [] ht,
      land_of_top place ht]
  · obtain ⟨ss, hss, hn, hsettle⟩ := normalize_of_here hs h
    rw [hn, land_text_here place hss, hsettle, land_of_here place hs h.isDrive_forward]

theorem DriveFree.isDrive_normalize {p : Path} (h : DriveFree p) :
    isDrive (forward (normalize p)) = false := by
  by_cases hs : (forward p).head? = some '/'
  · have htop : FromTop p := hs
    rw [normalize_of_top htop,
      forward_atTop (isSegment_all (ordinary_land_top htop))]
    exact isDrive_slash _
  · obtain ⟨ss, hss, hn, _⟩ := normalize_of_here hs h
    rw [hn, Parts.text]
    split
    · decide
    rw [forward_append, show forward (Root.here.text) = [] from rfl, List.nil_append,
      forward_join fun s hm => (hss s hm).1]
    cases ss with
    | nil => rfl
    | cons s ss => exact (isDrive_join s ss).trans (hss s List.mem_cons_self).2

end BatchCompile.Path
