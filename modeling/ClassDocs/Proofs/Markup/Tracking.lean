import ClassDocs.Proofs.Markup.Matching

/-!
# Open spans

The walk over the tags keeps the spans of all kinds that are open on one stack. For each kind, they
are the opening tags that wait for a closing tag in the matching and that a closing tag will reach.
-/

namespace ClassDocs

private theorem filter_eraseP_self {α : Type} (p : α → Bool) (l : List α) :
    (l.eraseP p).filter p = (l.filter p).tail := by
  induction l with
  | nil => rfl
  | cons a l ih =>
    cases ha : p a with
    | true => rw [List.eraseP_cons_of_pos ha, List.filter_cons_of_pos ha, List.tail_cons]
    | false =>
      have hne : ¬p a = true := by simp [ha]
      rw [List.eraseP_cons_of_neg hne, List.filter_cons_of_neg hne, List.filter_cons_of_neg hne, ih]

private theorem filter_eraseP_of_disjoint {α : Type} {p q : α → Bool} (l : List α)
    (h : ∀ a, p a = true → q a = false) : (l.eraseP p).filter q = l.filter q := by
  induction l with
  | nil => rfl
  | cons a l ih =>
    cases ha : p a with
    | true => rw [List.eraseP_cons_of_pos ha, List.filter_cons_of_neg (by simp [h a ha])]
    | false => rw [List.eraseP_cons_of_neg (by simp [ha]), List.filter_cons, List.filter_cons, ih]

def openSpans (kind : SpanKind) (stack : List Span) : List Span :=
  stack.filter fun span => span.kind == kind

theorem find?_eq_head?_openSpans (kind : SpanKind) (stack : List Span) :
    (stack.find? fun span => span.kind == kind) = (openSpans kind stack).head? :=
  List.head?_filter.symm

theorem openSpans_cons_self (span : Span) (stack : List Span) :
    openSpans span.kind (span :: stack) = span :: openSpans span.kind stack :=
  List.filter_cons_of_pos (by simp)

theorem openSpans_cons_of_ne {kind : SpanKind} {span : Span} (stack : List Span)
    (h : span.kind ≠ kind) : openSpans kind (span :: stack) = openSpans kind stack :=
  List.filter_cons_of_neg (by simpa using h)

theorem openSpans_eraseP_of_ne {kind erased : SpanKind} (stack : List Span) (h : erased ≠ kind) :
    openSpans kind (stack.eraseP fun span => span.kind == erased) = openSpans kind stack := by
  apply filter_eraseP_of_disjoint
  intro span hspan
  rw [beq_iff_eq] at hspan
  simpa [hspan] using h

theorem openSpans_eraseP_self (kind : SpanKind) (stack : List Span) :
    openSpans kind (stack.eraseP fun span => span.kind == kind) = (openSpans kind stack).tail :=
  filter_eraseP_self _ stack

theorem container_mem_iff (stack : List Span) :
    Span.container ∈ stack ↔ openSpans .container stack ≠ [] := by
  constructor
  · intro hmem
    exact List.ne_nil_of_mem (List.mem_filter.mpr ⟨hmem, rfl⟩)
  · intro hsome
    obtain ⟨span, hspan⟩ := List.exists_mem_of_ne_nil _ hsome
    obtain ⟨hmem, hkind⟩ := List.mem_filter.mp hspan
    cases span with
    | container => exact hmem
    | _ => exact absurd hkind Bool.false_ne_true

/-- The spans open at a position of some segments, with `rest` from there on, are the opening tags
that wait there and are still reached. -/
structure Tracks (kind : SpanKind) (all : List Segment) (position : Nat) (stack : List Span)
    (rest : List Segment) (past : List SpanMatch) (waiting : List (Nat × Span)) : Prop where
  matches_eq : spanMatches kind all = past ++ matchesFrom kind position waiting rest
  past_lt : ∀ found ∈ past, found.start < position ∧ found.stop < position
  waiting_lt : ∀ entry ∈ waiting, entry.1 < position
  open_eq : openSpans kind stack = (waiting.take (closingsLeft kind rest)).map Prod.snd

namespace Tracks

variable {kind : SpanKind} {all : List Segment} {position : Nat} {stack : List Span}
  {segment : Segment} {rest : List Segment} {past : List SpanMatch} {waiting : List (Nat × Span)}

theorem initial (kind : SpanKind) (all : List Segment) : Tracks kind all 0 [] all [] [] where
  matches_eq := rfl
  past_lt := by simp
  waiting_lt := by simp
  open_eq := by simp [openSpans]

private theorem past_lt_succ (h : Tracks kind all position stack rest past waiting) :
    ∀ found ∈ past, found.start < position + 1 ∧ found.stop < position + 1 := by
  intro found hfound
  obtain ⟨hstart, hstop⟩ := h.past_lt found hfound
  exact ⟨Nat.lt_succ_of_lt hstart, Nat.lt_succ_of_lt hstop⟩

private theorem waiting_lt_succ (h : Tracks kind all position stack rest past waiting) :
    ∀ entry ∈ waiting, entry.1 < position + 1 :=
  fun entry hentry => Nat.lt_succ_of_lt (h.waiting_lt entry hentry)

theorem other {stack' : List Span}
    (h : Tracks kind all position stack (segment :: rest) past waiting)
    (hopen : segment.opened? kind = none) (hclose : segment.closes kind = false)
    (hstack : openSpans kind stack' = openSpans kind stack) :
    Tracks kind all (position + 1) stack' rest past waiting where
  matches_eq := by rw [h.matches_eq, matchesFrom_other position waiting hopen hclose]
  past_lt := h.past_lt_succ
  waiting_lt := h.waiting_lt_succ
  open_eq := by rw [hstack, h.open_eq, closingsLeft_other hopen hclose]

theorem opened {span : Span} (h : Tracks kind all position stack (segment :: rest) past waiting)
    (hopen : segment.opened? kind = some span) (hkind : span.kind = kind) :
    Tracks kind all (position + 1)
      (if 0 < closingsLeft kind rest then span :: stack else stack) rest past
      ((position, span) :: waiting) where
  matches_eq := by rw [h.matches_eq, matchesFrom_opened position waiting hopen]
  past_lt := h.past_lt_succ
  waiting_lt := by
    intro entry hentry
    rcases List.mem_cons.mp hentry with rfl | hentry
    · exact Nat.lt_succ_self position
    · exact h.waiting_lt_succ entry hentry
  open_eq := by
    have hstack := h.open_eq
    rw [closingsLeft_opened hopen] at hstack
    cases hleft : closingsLeft kind rest with
    -- No closing tag reaches this one, so it reaches none of those that wait behind it either.
    | zero => simpa [hleft] using hstack
    | succ left =>
      rw [hleft, Nat.add_sub_cancel] at hstack
      subst hkind
      rw [if_pos left.succ_pos, openSpans_cons_self, hstack]
      rfl

theorem closed_nil (h : Tracks kind all position stack (segment :: rest) past [])
    (hopen : segment.opened? kind = none) (hclose : segment.closes kind = true) :
    Tracks kind all (position + 1) stack rest past [] where
  matches_eq := by rw [h.matches_eq, matchesFrom_closes_nil position hopen hclose]
  past_lt := h.past_lt_succ
  waiting_lt := h.waiting_lt_succ
  open_eq := by simpa using h.open_eq

theorem closed_cons {start : Nat} {span : Span} {older : List (Nat × Span)}
    (h : Tracks kind all position stack (segment :: rest) past ((start, span) :: older))
    (hopen : segment.opened? kind = none) (hclose : segment.closes kind = true) :
    Tracks kind all (position + 1) (stack.eraseP fun span => span.kind == kind) rest
      (past ++ [⟨start, span, position⟩]) older where
  matches_eq := by
    rw [h.matches_eq, matchesFrom_closes_cons position start span older hopen hclose,
      List.append_assoc, List.singleton_append]
  past_lt := by
    intro found hfound
    rcases List.mem_append.mp hfound with hfound | hfound
    · exact h.past_lt_succ found hfound
    · obtain rfl := List.mem_singleton.mp hfound
      have hstart := h.waiting_lt (start, span) List.mem_cons_self
      exact ⟨Nat.lt_succ_of_lt hstart, Nat.lt_succ_self position⟩
  waiting_lt := fun entry hentry => h.waiting_lt_succ entry (List.mem_cons_of_mem _ hentry)
  open_eq := by
    have hstack := h.open_eq
    rw [closingsLeft_closes hopen hclose, List.take_succ_cons, List.map_cons] at hstack
    rw [openSpans_eraseP_self, hstack, List.tail_cons]

theorem spanOpen {span : Span}
    (h : Tracks kind all position stack (.tag (.spanOpen span) :: rest) past waiting) :
    ∃ past' waiting', Tracks kind all (position + 1)
      (if 0 < closingsLeft span.kind rest then span :: stack else stack) rest past' waiting' := by
  by_cases hkind : span.kind = kind
  · subst hkind
    exact ⟨past, _, h.opened (Segment.opened?_self span) rfl⟩
  · refine ⟨past, waiting, h.other (Segment.opened?_of_ne hkind) rfl ?_⟩
    split
    · exact openSpans_cons_of_ne stack hkind
    · rfl

theorem spanClose {closed : SpanKind}
    (h : Tracks kind all position stack (.tag (.spanClose closed) :: rest) past waiting) :
    ∃ past' waiting', Tracks kind all (position + 1)
      (stack.eraseP fun span => span.kind == closed) rest past' waiting' := by
  by_cases hkind : closed = kind
  · subst hkind
    have hclose := Segment.closes_self closed
    cases waiting with
    | nil =>
      have hnone : openSpans closed stack = [] := by simpa using h.open_eq
      have hstack : stack.eraseP (fun span => span.kind == closed) = stack :=
        List.eraseP_of_forall_not (List.filter_eq_nil_iff.mp hnone)
      rw [hstack]
      exact ⟨past, [], h.closed_nil rfl hclose⟩
    | cons entry older => exact ⟨_, older, h.closed_cons rfl hclose⟩
  · have hstack := openSpans_eraseP_of_ne stack hkind
    exact ⟨past, waiting, h.other rfl (Segment.closes_of_ne hkind) hstack⟩

/-- An opening tag is matched exactly if the closing tags after it reach it. -/
theorem startsMatch_eq {span : Span}
    (h : Tracks kind all position stack (segment :: rest) past waiting)
    (hopen : segment.opened? kind = some span) :
    startsMatch kind all position = decide (0 < closingsLeft kind rest) := by
  rw [Bool.eq_iff_iff, startsMatch, List.any_eq_true, decide_eq_true_eq, h.matches_eq,
    matchesFrom_opened position waiting hopen]
  constructor
  · rintro ⟨found, hfound, hstart⟩
    rw [beq_iff_eq] at hstart
    rcases List.mem_append.mp hfound with hfound | hfound
    · exact absurd hstart (Nat.ne_of_lt (h.past_lt found hfound).1)
    · rcases reached_of_mem_matchesFrom hfound with hreached | hlater
      · apply Nat.pos_of_ne_zero
        intro hnone
        rw [hnone] at hreached
        exact absurd hreached List.not_mem_nil
      · omega
  · intro hleft
    obtain ⟨left, hleft⟩ := Nat.exists_eq_add_one.mpr hleft
    have hnearest : (position, span) ∈
        ((position, span) :: waiting).take (closingsLeft kind rest) := by
      rw [hleft, List.take_succ_cons]
      exact List.mem_cons_self
    obtain ⟨found, hfound, hstart⟩ := exists_mem_matchesFrom (position + 1) hnearest
    exact ⟨found, List.mem_append_right _ hfound, beq_iff_eq.mpr hstart⟩

theorem stoppedAt?_eq (h : Tracks kind all position stack (segment :: rest) past waiting)
    (hopen : segment.opened? kind = none) (hclose : segment.closes kind = true) :
    stoppedAt? kind all position = stack.find? fun span => span.kind == kind := by
  have hpast : (past.find? fun found => found.stop == position) = none := by
    rw [List.find?_eq_none]
    intro found hfound
    rw [beq_iff_eq]
    exact Nat.ne_of_lt (h.past_lt found hfound).2
  rw [stoppedAt?, h.matches_eq, List.find?_append, hpast, Option.none_or,
    find?_eq_head?_openSpans, h.open_eq, closingsLeft_closes hopen hclose]
  cases waiting with
  | nil =>
    have hnone : ((matchesFrom kind (position + 1) [] rest).find? fun found =>
        found.stop == position) = none := by
      rw [List.find?_eq_none]
      intro found hfound
      rw [beq_iff_eq]
      exact Nat.ne_of_gt (le_stop_of_mem_matchesFrom hfound)
    rw [matchesFrom_closes_nil position hopen hclose, hnone]
    rfl
  | cons entry older =>
    rw [matchesFrom_closes_cons position entry.1 entry.2 older hopen hclose,
      List.find?_cons_of_pos (by simp)]
    rfl

/-- A span is open at a tag that does not open or close one exactly if the tag is inside a match. -/
theorem insideMatch_iff (h : Tracks kind all position stack (segment :: rest) past waiting)
    (hopen : segment.opened? kind = none) (hclose : segment.closes kind = false) :
    insideMatch kind all position = true ↔ openSpans kind stack ≠ [] := by
  rw [insideMatch, List.any_eq_true, h.matches_eq, h.open_eq, closingsLeft_other hopen hclose,
    matchesFrom_other position waiting hopen hclose, Ne, List.map_eq_nil_iff]
  simp only [Bool.and_eq_true, decide_eq_true_eq]
  constructor
  · rintro ⟨found, hfound, hstart, hstop⟩ hnone
    rcases List.mem_append.mp hfound with hfound | hfound
    · have hpast := (h.past_lt found hfound).2
      omega
    · rcases reached_of_mem_matchesFrom hfound with hreached | hlater
      · rw [hnone] at hreached
        exact absurd hreached List.not_mem_nil
      · omega
  · intro hsome
    obtain ⟨entry, hentry⟩ := List.exists_mem_of_ne_nil _ hsome
    obtain ⟨found, hfound, hstart⟩ := exists_mem_matchesFrom (position + 1) hentry
    have hbefore := h.waiting_lt entry (List.mem_of_mem_take hentry)
    refine ⟨found, List.mem_append_right _ hfound, ?_, le_stop_of_mem_matchesFrom hfound⟩
    rwa [hstart]

end Tracks

def Tracked (all : List Segment) (position : Nat) (stack : List Span) (rest : List Segment) : Prop :=
  ∀ kind, ∃ past waiting, Tracks kind all position stack rest past waiting

namespace Tracked

variable {all : List Segment} {position : Nat} {stack : List Span} {segment : Segment}
  {rest : List Segment}

theorem initial (all : List Segment) : Tracked all 0 [] all :=
  fun kind => ⟨[], [], Tracks.initial kind all⟩

theorem other (h : Tracked all position stack (segment :: rest))
    (hopen : ∀ kind, segment.opened? kind = none) (hclose : ∀ kind, segment.closes kind = false) :
    Tracked all (position + 1) stack rest := by
  intro kind
  obtain ⟨past, waiting, htracks⟩ := h kind
  exact ⟨past, waiting, htracks.other (hopen kind) (hclose kind) rfl⟩

theorem spanOpen {span : Span} (h : Tracked all position stack (.tag (.spanOpen span) :: rest)) :
    Tracked all (position + 1) (if 0 < closingsLeft span.kind rest then span :: stack else stack)
      rest := by
  intro kind
  obtain ⟨past, waiting, htracks⟩ := h kind
  exact htracks.spanOpen

theorem spanClose {closed : SpanKind}
    (h : Tracked all position stack (.tag (.spanClose closed) :: rest)) :
    Tracked all (position + 1) (stack.eraseP fun span => span.kind == closed) rest := by
  intro kind
  obtain ⟨past, waiting, htracks⟩ := h kind
  exact htracks.spanClose

end Tracked

end ClassDocs
