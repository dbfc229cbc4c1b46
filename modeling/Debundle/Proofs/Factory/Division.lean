import Debundle.Proofs.Factory.Restoring
import Debundle.Proofs.Script.Nesting

/-!
# How a body is divided

The body of a factory is kept in pieces: a statement with the comments in front of it, and at the
end of the body with those behind it.  If the children of the body stand one behind the other, so do
the pieces; each statement is in exactly one of them, and a directive is in none.

* `Pieces.OrderedTo`: what has been gathered stands in order, up to an offset.
* `Pieces.behind`: what is gathered behind other pieces does not depend on them.
* `Apart`, `InsideOne`: how a piece stands to others.
* `Divides`: the pieces of a body.
* `statementSpans_divides`: the pieces that are kept are such pieces.
-/

namespace Debundle.Factory

open Script

variable {body c d : Node} {cs xs ys : List Node} {wanted : List (Nat × Nat)} {a b s : Nat × Nat}
  {k : Nat} {p : Pieces}

/-! ## Pieces in order -/

/-- The pieces gathered up to an offset stand one behind the other, and the comments since the last
one stand behind them. -/
structure Pieces.OrderedTo (k : Nat) (p : Pieces) : Prop where
  spans : p.spans.Pairwise fun s t => t.2 ≤ s.1
  forward : ∀ s ∈ p.spans, s.1 ≤ s.2 ∧ s.2 ≤ k
  pending : ∀ start ∈ p.pending, start ≤ k ∧ ∀ s ∈ p.spans, s.2 ≤ start
  trailing : ∀ stop ∈ p.trailing, ∀ s ∈ p.spans, s.2 ≤ stop

namespace Pieces.OrderedTo

theorem empty : Pieces.OrderedTo k ⟨[], none, none⟩ :=
  ⟨List.Pairwise.nil, fun _ h => absurd h List.not_mem_nil,
    fun _ h => absurd h (Option.not_mem_none _), fun _ h => absurd h (Option.not_mem_none _)⟩

/-- A piece that begins here begins behind all others. -/
theorem pending_getD (hp : p.OrderedTo k) {start : Nat} (hstart : k ≤ start) :
    p.pending.getD start ≤ start ∧ ∀ s ∈ p.spans, s.2 ≤ p.pending.getD start := by
  cases h : p.pending with
  | none => exact ⟨Nat.le_refl _, fun s hs => Nat.le_trans (hp.forward s hs).2 hstart⟩
  | some first =>
    obtain ⟨hfirst, hspans⟩ := hp.pending first h
    exact ⟨Nat.le_trans hfirst hstart, hspans⟩

theorem add (hp : p.OrderedTo k) (hstart : k ≤ c.start) (hstop : c.start ≤ c.stop)
    (wanted : List (Nat × Nat)) : (p.add wanted c).OrderedTo c.stop := by
  obtain ⟨hfirst, hspans⟩ := hp.pending_getD hstart
  have hforward : ∀ s ∈ p.spans, s.1 ≤ s.2 ∧ s.2 ≤ c.stop := fun s hs =>
    ⟨(hp.forward s hs).1, Nat.le_trans (hp.forward s hs).2 (Nat.le_trans hstart hstop)⟩
  have hnone : ∀ {P : Nat → Prop}, ∀ k ∈ (none : Option Nat), P k := fun _ hk => by cases hk
  unfold Pieces.add
  split
  · refine ⟨hp.spans, hforward, ?_, ?_⟩
    · rintro _ ⟨⟩
      exact ⟨Nat.le_trans hfirst hstop, hspans⟩
    · rintro _ ⟨⟩
      exact fun s hs => (hforward s hs).2
  · split
    · refine ⟨List.pairwise_cons.mpr ⟨hspans, hp.spans⟩, List.forall_mem_cons.mpr ⟨?_, hforward⟩, hnone,
        hnone⟩
      exact ⟨Nat.le_trans hfirst hstop, Nat.le_refl _⟩
    · exact ⟨hp.spans, hforward, hnone, hnone⟩

theorem foldl_add (hp : p.OrderedTo k) (hcs : ∀ c ∈ cs, k ≤ c.start ∧ c.start ≤ c.stop)
    (hordered : cs.Pairwise fun c d => c.stop ≤ d.start) (wanted : List (Nat × Nat)) :
    ∃ stop, (cs.foldl (Pieces.add wanted) p).OrderedTo stop := by
  induction cs generalizing p k with
  | nil => exact ⟨k, hp⟩
  | cons c cs ih =>
    obtain ⟨⟨hstart, hstop⟩, hcs⟩ := List.forall_mem_cons.mp hcs
    obtain ⟨hbehind, hordered⟩ := List.pairwise_cons.mp hordered
    exact ih (hp.add hstart hstop wanted) (fun d hd => ⟨hbehind d hd, (hcs d hd).2⟩) hordered

theorem finish (hp : p.OrderedTo k) :
    (∀ s ∈ p.finish, s.1 ≤ s.2) ∧ p.finish.Pairwise fun s t => s.2 ≤ t.1 := by
  unfold Pieces.finish
  split
  · rename_i start stop rest last hspans hlast
    have hforward := hp.forward
    have hordered := hp.spans
    have htrailing := hp.trailing last hlast
    rw [hspans] at hforward hordered htrailing
    obtain ⟨hfirst, hrest⟩ := List.forall_mem_cons.mp hforward
    refine ⟨fun s hs => ?_, List.pairwise_reverse.mpr (List.pairwise_cons.mpr
      (List.pairwise_cons.mp hordered))⟩
    rcases List.mem_cons.mp (List.mem_reverse.mp hs) with rfl | hs
    · exact Nat.le_trans hfirst.1 (htrailing _ List.mem_cons_self)
    · exact (hrest s hs).1
  · exact ⟨fun s hs => (hp.forward s (List.mem_reverse.mp hs)).1,
      List.pairwise_reverse.mpr hp.spans⟩

end Pieces.OrderedTo

/-! ## One piece after the other -/

/-- The same behind older pieces. -/
def Pieces.behind (older : List (Nat × Nat)) (p : Pieces) : Pieces :=
  ⟨p.spans ++ older, p.pending, p.trailing⟩

theorem Pieces.add_behind (older wanted : List (Nat × Nat)) (p : Pieces) (c : Node) :
    (p.behind older).add wanted c = (p.add wanted c).behind older := by
  unfold Pieces.add
  split
  · rfl
  · split <;> rfl

/-- What is gathered does not depend on older pieces. -/
theorem Pieces.foldl_add_behind (older wanted : List (Nat × Nat)) (p : Pieces) (cs : List Node) :
    cs.foldl (Pieces.add wanted) (p.behind older) =
      (cs.foldl (Pieces.add wanted) p).behind older := by
  induction cs generalizing p with
  | nil => rfl
  | cons c cs ih => rw [List.foldl_cons, List.foldl_cons, add_behind, ih]

/-- Older pieces come first; only the last piece may grow at the end. -/
theorem Pieces.finish_behind (start stop : Nat) (older : List (Nat × Nat)) (p : Pieces) :
    (p.behind ((start, stop) :: older)).finish = older.reverse ++
      (start, if p.spans = [] then p.trailing.getD stop else stop) :: p.finish := by
  obtain ⟨spans, pending, trailing⟩ := p
  cases spans <;> cases trailing <;> simp [behind, finish]

/-- What is not wanted adds no piece. -/
theorem Pieces.spans_foldl_add (h : ∀ c ∈ cs, c.span ∉ wanted) :
    (cs.foldl (Pieces.add wanted) p).spans = p.spans := by
  induction cs generalizing p with
  | nil => rfl
  | cons c cs ih =>
    obtain ⟨hc, hcs⟩ := List.forall_mem_cons.mp h
    have hskip : wanted.contains c.span = false := by simpa using hc
    rw [List.foldl_cons, ih hcs, Pieces.add, hskip]
    split <;> rfl

/-- If nothing is wanted up to a child that is no comment, gathering begins anew behind it. -/
theorem Pieces.foldl_add_of_forall_notMem (hkind : c.kind ≠ .comment) (hc : c.span ∉ wanted)
    (hxs : ∀ x ∈ xs, x.span ∉ wanted) :
    (xs ++ c :: ys).foldl (Pieces.add wanted) ⟨[], none, none⟩ =
      ys.foldl (Pieces.add wanted) ⟨[], none, none⟩ := by
  have hskip : ∀ p : Pieces, p.add wanted c = ⟨p.spans, none, none⟩ := by
    intro p
    rw [Pieces.add, if_neg (by simpa using hkind), if_neg (by simpa using hc)]
  rw [List.foldl_append, List.foldl_cons, hskip, Pieces.spans_foldl_add hxs]

/-! ## The pieces of a body -/

/-- A piece is inside another one. -/
def Inside (a b : Nat × Nat) : Prop := b.1 ≤ a.1 ∧ a.2 ≤ b.2

instance (a b : Nat × Nat) : Decidable (Inside a b) :=
  inferInstanceAs (Decidable (b.1 ≤ a.1 ∧ a.2 ≤ b.2))

/-- Two pieces have no byte in common. -/
def Apart (a b : Nat × Nat) : Prop := ∀ k, a.1 ≤ k → k < a.2 → b.1 ≤ k → b.2 ≤ k

/-- A piece is inside of exactly one of several pieces, and apart from the other ones. -/
def InsideOne (spans : List (Nat × Nat)) (a : Nat × Nat) : Prop :=
  ∃ before s after, spans = before ++ s :: after ∧ Inside a s ∧ ∀ t ∈ before ++ after, Apart a t

theorem Apart.of_le (h : a.2 ≤ b.1 ∨ b.2 ≤ a.1) : Apart a b := by
  intro k hstart hstop hk
  omega

/-- What is not empty is not apart from what it is inside of. -/
theorem Inside.not_apart (h : Inside a b) (hlt : a.1 < a.2) : ¬Apart a b := fun hapart =>
  Nat.not_lt_of_le (hapart a.1 (Nat.le_refl _) hlt h.1) (Nat.lt_of_lt_of_le hlt h.2)

theorem Apart.of_inside (h : Apart b s) (hab : Inside a b) : Apart a s := fun k hstart hstop =>
  h k (Nat.le_trans hab.1 hstart) (Nat.lt_of_lt_of_le hstop hab.2)

/-- What is inside of a piece is where the piece is. -/
theorem InsideOne.of_inside {spans : List (Nat × Nat)} (h : InsideOne spans b) (hab : Inside a b) :
    InsideOne spans a := by
  obtain ⟨before, s, after, hspans, hbs, hapart⟩ := h
  exact ⟨before, s, after, hspans, ⟨Nat.le_trans hbs.1 hab.1, Nat.le_trans hab.2 hbs.2⟩,
    fun t ht => (hapart t ht).of_inside hab⟩

/-- A wanted child is in one piece: what is gathered in front of it ends there, and what is gathered
behind it begins there. -/
theorem Pieces.exists_finish_foldl_eq (hkind : c.kind ≠ .comment) (hc : c.span ∈ wanted)
    (hxs : ∀ x ∈ xs, x.start ≤ c.start ∧ x.stop ≤ c.start)
    (hys : ∀ y ∈ ys, c.stop ≤ y.start ∧ c.stop ≤ y.stop) :
    ∃ before s after,
      ((xs ++ c :: ys).foldl (Pieces.add wanted) ⟨[], none, none⟩).finish =
        before ++ s :: after ∧
      (∀ t ∈ before, t.2 ≤ c.start) ∧ Inside c.span s ∧ ∀ t ∈ after, c.stop ≤ t.1 := by
  have hfront : (xs.foldl (Pieces.add wanted) ⟨[], none, none⟩).AllAt (· ≤ c.start) :=
    Pieces.AllAt.empty.foldl_add hxs wanted
  have hbehind : (ys.foldl (Pieces.add wanted) ⟨[], none, none⟩).AllAt (c.stop ≤ ·) :=
    Pieces.AllAt.empty.foldl_add hys wanted
  have htaken : ∀ p : Pieces, p.add wanted c =
      Pieces.behind ((p.pending.getD c.start, c.stop) :: p.spans) ⟨[], none, none⟩ := by
    intro p
    rw [Pieces.add, if_neg (by simpa using hkind), if_pos (List.contains_iff_mem.mpr hc)]
    rfl
  rw [List.foldl_append, List.foldl_cons, htaken, Pieces.foldl_add_behind, Pieces.finish_behind]
  refine ⟨_, _, _, rfl, fun t ht => (hfront.spans t (List.mem_reverse.mp ht)).2,
    ⟨hfront.pending_getD (Nat.le_refl _), ?_⟩, fun t ht => (hbehind.finish t ht).1⟩
  show c.stop ≤ if _ then _ else _
  split
  · cases htrailing : (ys.foldl (Pieces.add wanted) ⟨[], none, none⟩).trailing with
    | none => exact Nat.le_refl _
    | some stop => exact hbehind.trailing stop htrailing
  · exact Nat.le_refl _

/-- Pieces of a body stand one behind the other; each statement behind the directives is in exactly
one of them, and no directive touches any. -/
structure Divides (spans : List (Nat × Nat)) (body : Node) : Prop where
  forward : ∀ s ∈ spans, s.1 ≤ s.2
  ordered : spans.Pairwise fun s t => s.2 ≤ t.1
  statement : ∀ c ∈ body.bodyStatements, InsideOne spans c.span
  directive : ∀ d ∈ body.parts.takeWhile Node.isDirective, ∀ s ∈ spans, Apart d.span s

/-- The children among which the statements are looked for. -/
def candidates (body : Node) : List Node := body.children.filter (·.kind != .keyword)

theorem statementSpans_eq (body : Node) : statementSpans body =
    ((candidates body).foldl (Pieces.add (body.bodyStatements.map Node.span))
      ⟨[], none, none⟩).finish := rfl

theorem mem_candidates_of_mem_parts (h : c ∈ body.parts) :
    c ∈ candidates body ∧ c.kind ≠ .comment := by
  obtain ⟨hc, hpart⟩ := List.mem_filter.mp h
  rw [Node.isPart, Bool.and_eq_true] at hpart
  refine ⟨List.mem_filter.mpr ⟨hc, hpart.2⟩, fun hkind => ?_⟩
  rw [hkind] at hpart
  cases hpart.1

theorem mem_parts_of_mem_bodyStatements (h : c ∈ body.bodyStatements) : c ∈ body.parts :=
  (List.dropWhile_sublist _).subset h

/-- A directive ends before the statements begin. -/
theorem stop_le_of_mem_wanted (hbody : body.Encloses)
    (hd : d ∈ body.parts.takeWhile Node.isDirective)
    (ha : a ∈ body.bodyStatements.map Node.span) : d.stop ≤ a.1 := by
  obtain ⟨c, hc, rfl⟩ := List.mem_map.mp ha
  have hparts : body.parts.Pairwise fun c d => c.stop ≤ d.start := hbody.ordered.filter _
  rw [← List.takeWhile_append_dropWhile (p := Node.isDirective) (l := body.parts)] at hparts
  exact (List.pairwise_append.mp hparts).2.2 d hd c hc

variable (hbody : body.Encloses) (hchildren : ∀ c ∈ body.children, c.start ≤ c.stop)

include hbody hchildren

/-- What stands in front of a child and behind it. -/
theorem exists_candidates_eq (hc : c ∈ candidates body) :
    ∃ xs ys, candidates body = xs ++ c :: ys ∧
      (∀ x ∈ xs, x.start ≤ c.start ∧ x.stop ≤ c.start) ∧
      ∀ y ∈ ys, c.stop ≤ y.start ∧ c.stop ≤ y.stop := by
  obtain ⟨xs, ys, hsplit⟩ := List.append_of_mem hc
  have hordered : (candidates body).Pairwise fun c d => c.stop ≤ d.start := hbody.ordered.filter _
  have hforward : ∀ c ∈ candidates body, c.start ≤ c.stop := fun c hc =>
    hchildren c (List.mem_of_mem_filter hc)
  rw [hsplit] at hordered hforward
  obtain ⟨-, hys, hxs⟩ := List.pairwise_append.mp hordered
  refine ⟨xs, ys, hsplit, fun x hx => ?_, fun y hy => ?_⟩
  · have hbefore := hxs x hx c List.mem_cons_self
    exact ⟨Nat.le_trans (hforward x (List.mem_append_left _ hx)) hbefore, hbefore⟩
  · have hbehind := (List.pairwise_cons.mp hys).1 y hy
    exact ⟨hbehind, Nat.le_trans hbehind
      (hforward y (List.mem_append_right _ (List.mem_cons_of_mem c hy)))⟩

/-- A statement is in exactly one piece. -/
theorem insideOne_of_mem_bodyStatements (hc : c ∈ body.bodyStatements) :
    InsideOne (statementSpans body) c.span := by
  obtain ⟨hmem, hkind⟩ := mem_candidates_of_mem_parts (mem_parts_of_mem_bodyStatements hc)
  obtain ⟨xs, ys, hsplit, hxs, hys⟩ := exists_candidates_eq hbody hchildren hmem
  obtain ⟨before, s, after, hspans, hbefore, hinside, hafter⟩ :=
    Pieces.exists_finish_foldl_eq hkind (List.mem_map_of_mem hc) hxs hys
  rw [← hsplit, ← statementSpans_eq] at hspans
  exact ⟨before, s, after, hspans, hinside, List.forall_mem_append.mpr
    ⟨fun t ht => Apart.of_le (Or.inr (hbefore t ht)),
      fun t ht => Apart.of_le (Or.inl (hafter t ht))⟩⟩

/-- No piece touches a directive. -/
theorem apart_of_mem_takeWhile (hd : d ∈ body.parts.takeWhile Node.isDirective)
    (hs : s ∈ statementSpans body) : Apart d.span s := by
  by_cases hempty : d.stop ≤ d.start
  · intro k hstart hstop _
    exact absurd (Nat.lt_of_le_of_lt hstart hstop) (Nat.not_lt_of_le hempty)
  obtain ⟨hmem, hkind⟩ := mem_candidates_of_mem_parts ((List.takeWhile_sublist _).subset hd)
  obtain ⟨xs, ys, hsplit, hxs, hys⟩ := exists_candidates_eq hbody hchildren hmem
  have hunwanted : ∀ x : Node, x.start ≤ d.start → x.span ∉ body.bodyStatements.map Node.span := by
    intro x hx hwanted
    have hle : d.stop ≤ x.start := stop_le_of_mem_wanted hbody hd hwanted
    omega
  rw [statementSpans_eq, hsplit, Pieces.foldl_add_of_forall_notMem hkind
    (hunwanted d (Nat.le_refl _)) fun x hx => hunwanted x (hxs x hx).1] at hs
  exact Apart.of_le (Or.inl ((Pieces.AllAt.empty.foldl_add hys _).finish s hs).1)

/-- The pieces that are kept divide the body. -/
theorem statementSpans_divides : Divides (statementSpans body) body := by
  have hcandidates : ∀ c ∈ candidates body, 0 ≤ c.start ∧ c.start ≤ c.stop := fun c hc =>
    ⟨Nat.zero_le _, hchildren c (List.mem_of_mem_filter hc)⟩
  obtain ⟨stop, hfold⟩ := Pieces.OrderedTo.empty.foldl_add hcandidates (hbody.ordered.filter _)
    (body.bodyStatements.map Node.span)
  obtain ⟨hforward, hordered⟩ := hfold.finish
  exact ⟨hforward, hordered, fun c hc => insideOne_of_mem_bodyStatements hbody hchildren hc,
    fun d hd s hs => apart_of_mem_takeWhile hbody hchildren hd hs⟩

end Debundle.Factory
