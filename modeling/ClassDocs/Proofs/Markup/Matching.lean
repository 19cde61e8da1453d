import ClassDocs.Proofs.Markup.Segment

/-!
# Matching closing tags with opening tags

For each kind of span alone, a closing tag is matched with the nearest opening tag before it that is
not matched yet. Read from left to right, this needs the opening tags that wait for a closing tag.
-/

namespace ClassDocs

structure SpanMatch where
  start : Nat
  span : Span
  stop : Nat
  deriving DecidableEq, Repr

/-- The matches that the segments from a position on complete, while opening tags before them wait,
the nearest first. -/
def matchesFrom (kind : SpanKind) :
    (position : Nat) → (waiting : List (Nat × Span)) → List Segment → List SpanMatch
  | _, _, [] => []
  | position, waiting, segment :: rest =>
    match segment.opened? kind with
    | some span => matchesFrom kind (position + 1) ((position, span) :: waiting) rest
    | none =>
      if segment.closes kind then
        match waiting with
        | [] => matchesFrom kind (position + 1) [] rest
        | (start, span) :: older =>
          ⟨start, span, position⟩ :: matchesFrom kind (position + 1) older rest
      else matchesFrom kind (position + 1) waiting rest

def spanMatches (kind : SpanKind) (all : List Segment) : List SpanMatch :=
  matchesFrom kind 0 [] all

def startsMatch (kind : SpanKind) (all : List Segment) (position : Nat) : Bool :=
  (spanMatches kind all).any fun found => found.start == position

/-- The span of the match that stops at a position. -/
def stoppedAt? (kind : SpanKind) (all : List Segment) (position : Nat) : Option Span :=
  ((spanMatches kind all).find? fun found => found.stop == position).map SpanMatch.span

def insideMatch (kind : SpanKind) (all : List Segment) (position : Nat) : Bool :=
  (spanMatches kind all).any fun found => found.start < position && position < found.stop

section Steps

variable {kind : SpanKind} {segment : Segment} {rest : List Segment} (position : Nat)

theorem matchesFrom_opened {span : Span} (waiting : List (Nat × Span))
    (h : segment.opened? kind = some span) :
    matchesFrom kind position waiting (segment :: rest) =
      matchesFrom kind (position + 1) ((position, span) :: waiting) rest := by
  rw [matchesFrom.eq_def]
  dsimp only
  rw [h]

theorem matchesFrom_closes_nil (hopen : segment.opened? kind = none)
    (hclose : segment.closes kind = true) :
    matchesFrom kind position [] (segment :: rest) = matchesFrom kind (position + 1) [] rest := by
  rw [matchesFrom.eq_def]
  dsimp only
  rw [hopen]
  exact if_pos hclose

theorem matchesFrom_closes_cons (start : Nat) (span : Span) (older : List (Nat × Span))
    (hopen : segment.opened? kind = none) (hclose : segment.closes kind = true) :
    matchesFrom kind position ((start, span) :: older) (segment :: rest) =
      ⟨start, span, position⟩ :: matchesFrom kind (position + 1) older rest := by
  rw [matchesFrom.eq_def]
  dsimp only
  rw [hopen]
  exact if_pos hclose

theorem matchesFrom_other (waiting : List (Nat × Span)) (hopen : segment.opened? kind = none)
    (hclose : segment.closes kind = false) :
    matchesFrom kind position waiting (segment :: rest) =
      matchesFrom kind (position + 1) waiting rest := by
  rw [matchesFrom.eq_def]
  dsimp only
  rw [hopen]
  exact if_neg (by simp [hclose])

end Steps

section Reached

variable {kind : SpanKind} {position : Nat} {waiting : List (Nat × Span)} {segments : List Segment}

theorem le_stop_of_mem_matchesFrom {found : SpanMatch}
    (hfound : found ∈ matchesFrom kind position waiting segments) : position ≤ found.stop := by
  fun_induction matchesFrom kind position waiting segments with
  | case1 => exact absurd hfound List.not_mem_nil
  | case4 position segment rest _ _ start span older ih =>
    rcases List.mem_cons.mp hfound with rfl | hfound
    · exact Nat.le_refl position
    · exact Nat.le_of_succ_le (ih hfound)
  | case2 _ _ _ _ _ _ ih | case3 _ _ _ _ _ ih | case5 _ _ _ _ _ _ ih =>
    exact Nat.le_of_succ_le (ih hfound)

/-- The waiting opening tags that are matched are the nearest ones, as many as there are closing
tags left for them. -/
theorem reached_of_mem_matchesFrom {found : SpanMatch}
    (hfound : found ∈ matchesFrom kind position waiting segments) :
    (found.start, found.span) ∈ waiting.take (closingsLeft kind segments) ∨
      position ≤ found.start := by
  fun_induction matchesFrom kind position waiting segments with
  | case1 => exact absurd hfound List.not_mem_nil
  | case2 position waiting segment rest span hopen ih =>
    rw [closingsLeft_opened hopen]
    -- The tag at this position takes the nearest of the closing tags that are left.
    rcases ih hfound with hreached | hlater
    · cases hleft : closingsLeft kind rest with
      | zero => simp [hleft] at hreached
      | succ left =>
        rw [hleft, List.take_succ_cons, List.mem_cons] at hreached
        rcases hreached with heq | hreached
        · exact .inr (Nat.le_of_eq (Prod.mk.inj heq).1.symm)
        · exact .inl hreached
    · exact .inr (Nat.le_of_succ_le hlater)
  | case3 position segment rest hopen hclose ih =>
    have hlater := (ih hfound).resolve_left (by simp)
    exact .inr (Nat.le_of_succ_le hlater)
  | case4 position segment rest hopen hclose start span older ih =>
    rw [closingsLeft_closes hopen hclose, List.take_succ_cons, List.mem_cons]
    rcases List.mem_cons.mp hfound with rfl | hfound
    · exact .inl (.inl rfl)
    · rcases ih hfound with hreached | hlater
      · exact .inl (.inr hreached)
      · exact .inr (Nat.le_of_succ_le hlater)
  | case5 position waiting segment rest hopen hclose ih =>
    rw [closingsLeft_other hopen (eq_false_of_ne_true hclose)]
    exact (ih hfound).imp_right Nat.le_of_succ_le

theorem exists_mem_matchesFrom (position : Nat) {entry : Nat × Span}
    (hentry : entry ∈ waiting.take (closingsLeft kind segments)) :
    ∃ found ∈ matchesFrom kind position waiting segments, found.start = entry.1 := by
  fun_induction matchesFrom kind position waiting segments with
  | case1 => simp [closingsLeft] at hentry
  | case2 position waiting segment rest span hopen ih =>
    rw [closingsLeft_opened hopen] at hentry
    apply ih
    cases hleft : closingsLeft kind rest with
    | zero => simp [hleft] at hentry
    | succ left =>
      rw [hleft, Nat.add_sub_cancel] at hentry
      exact List.mem_cons_of_mem _ hentry
  | case3 => simp at hentry
  | case4 position segment rest hopen hclose start span older ih =>
    rw [closingsLeft_closes hopen hclose, List.take_succ_cons, List.mem_cons] at hentry
    rcases hentry with rfl | hentry
    · exact ⟨_, List.mem_cons_self, rfl⟩
    · obtain ⟨found, hfound, hstart⟩ := ih hentry
      exact ⟨found, List.mem_cons_of_mem _ hfound, hstart⟩
  | case5 position waiting segment rest hopen hclose ih =>
    rw [closingsLeft_other hopen (eq_false_of_ne_true hclose)] at hentry
    exact ih hentry

end Reached

end ClassDocs
