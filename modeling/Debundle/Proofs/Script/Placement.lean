import Debundle.Script.Reader
import Debundle.Proofs.Text.Boundaries

/-!
# Parsers stay inside their source

Every node of a tree begins and ends between two code points of the source, and the text of a leaf
is made of code points of the source.  A parser keeps this of what it reads if the parsers it is
made of do; so the property is a class of parsers, and that a rule of the grammar has it is found
from the rule itself.

* `Node.LiesIn`, `Cursor.LiesIn`, `Reader.LiesIn`: a tree, a place and a reader in a text.
* `LiesIn`: the same for whatever a parser may give.
* `Parser.ReadsIn`: a parser that gives what lies in the text, and stays in it.
-/

namespace Debundle.Script

variable {t : Text}

/-! ## Nodes -/

/-- A tree whose nodes begin and end at boundaries of a text and have texts out of it. -/
inductive Node.LiesIn (t : Text) : Node → Prop
  | mk {kind : Kind} {role : Option Role} {start stop : Nat} {text : Text} {children : List Node}
      (start_boundary : t.Boundary start) (stop_boundary : t.Boundary stop)
      (text_subset : text ⊆ t) (children_lieIn : ∀ c ∈ children, Node.LiesIn t c) :
      Node.LiesIn t ⟨kind, role, start, stop, text, children⟩

theorem Node.liesIn_iff {n : Node} : n.LiesIn t ↔ t.Boundary n.start ∧ t.Boundary n.stop ∧
    n.text ⊆ t ∧ ∀ c ∈ n.children, c.LiesIn t := by
  constructor
  · rintro ⟨hstart, hstop, htext, hchildren⟩
    exact ⟨hstart, hstop, htext, hchildren⟩
  · rintro ⟨hstart, hstop, htext, hchildren⟩
    cases n
    exact ⟨hstart, hstop, htext, hchildren⟩

/-! ## Places -/

/-- A place in a text. -/
def Cursor.LiesIn (t : Text) (c : Cursor) : Prop :=
  ∃ before, t = before ++ c.rest ∧ c.pos = before.utf8Size

namespace Cursor.LiesIn

variable {c : Cursor}

theorem boundary (h : c.LiesIn t) : t.Boundary c.pos := by
  obtain ⟨before, ht, hpos⟩ := h
  exact ⟨before, c.rest, ht, hpos⟩

theorem move (h : c.LiesIn t) (n : Nat) : (c.move n).LiesIn t := by
  obtain ⟨before, ht, hpos⟩ := h
  refine ⟨before ++ c.rest.take n, ?_, ?_⟩
  · rw [ht, Cursor.move, List.append_assoc, List.take_append_drop]
  · rw [Cursor.move, hpos, Text.utf8Size_append]

theorem leaf (h : c.LiesIn t) (kind : Kind) (n : Nat) : (c.leaf kind n).LiesIn t := by
  refine ⟨h.boundary, (h.move n).boundary, ?_, fun _ hc => absurd hc List.not_mem_nil⟩
  obtain ⟨before, ht, -⟩ := h
  rw [ht]
  exact fun x hx => List.mem_append_right _ (List.mem_of_mem_take hx)

end Cursor.LiesIn

/-- A comment in a text. -/
structure Remark.LiesIn (t : Text) (m : Remark) : Prop where
  node : m.node.LiesIn t
  after : m.after.LiesIn t

theorem skipTrivia_liesIn (fuel : Nat) {c : Cursor} (hc : c.LiesIn t) :
    (∀ m ∈ (skipTrivia fuel c).1, m.LiesIn t) ∧ (skipTrivia fuel c).2.LiesIn t := by
  induction fuel generalizing c with
  | zero => exact ⟨fun m hm => absurd hm List.not_mem_nil, hc⟩
  | succ fuel ih =>
    unfold skipTrivia
    extract_lets blank place
    have hplace : place.LiesIn t := by
      unfold place
      split
      · exact hc
      · exact hc.move _
    split
    · exact ⟨fun m hm => absurd hm List.not_mem_nil, hplace⟩
    · obtain ⟨hremarks, hnext⟩ := ih (hplace.move (commentSize place.rest))
      exact ⟨List.forall_mem_cons.mpr ⟨⟨hplace.leaf _ _, hplace.move _⟩, hremarks⟩, hnext⟩

/-! ## Readers -/

/-- A reader of a text. -/
structure Reader.LiesIn (t : Text) (r : Reader) : Prop where
  total : t.Boundary r.total
  back : r.back.LiesIn t
  here : r.here.LiesIn t
  skipped : ∀ m ∈ r.skipped, m.LiesIn t
  comments : ∀ n ∈ r.comments, n.LiesIn t

namespace Reader.LiesIn

variable {r : Reader} {c : Cursor}

/-- The comments behind a reader, once those that it passed over are among them. -/
theorem comments_append (hr : r.LiesIn t) {passed : List Remark} (h : ∀ m ∈ passed, m.LiesIn t) :
    ∀ n ∈ (passed.map Remark.node).reverse ++ r.comments, n.LiesIn t := by
  refine List.forall_mem_append.mpr ⟨fun n hn => ?_, hr.comments⟩
  obtain ⟨m, hm, rfl⟩ := List.mem_map.mp (List.mem_reverse.mp hn)
  exact (h m hm).node

theorem advanceTo (hr : r.LiesIn t) (hc : c.LiesIn t) : (r.advanceTo c).LiesIn t where
  total := hr.total
  back := hc
  here := (skipTrivia_liesIn (r.total - c.pos + 1) hc).2
  skipped := (skipTrivia_liesIn (r.total - c.pos + 1) hc).1
  comments := hr.comments_append hr.skipped

theorem jumpTo (hr : r.LiesIn t) (hc : c.LiesIn t) : (r.jumpTo c).LiesIn t where
  total := hr.total
  back := hc
  here := hc
  skipped := fun _ hm => absurd hm List.not_mem_nil
  comments := hr.comments_append hr.skipped

theorem start (t : Text) : (Reader.start t).LiesIn t := by
  have horigin : (⟨t, 0⟩ : Cursor).LiesIn t := ⟨[], rfl, rfl⟩
  have htrivia := skipTrivia_liesIn (t.utf8Size + 1) horigin
  have hend : t.Boundary t.utf8Size := ⟨t, [], (List.append_nil t).symm, rfl⟩
  exact ⟨hend, horigin, htrivia.2, htrivia.1, fun _ hn => absurd hn List.not_mem_nil⟩

/-- A statement that takes in some of the comments behind it. -/
theorem settle (hr : r.LiesIn t) {place : Cursor} {passed : List Remark} (hplace : place.LiesIn t)
    (hpassed : ∀ m ∈ passed, m.LiesIn t) : (Parser.settle r place passed).LiesIn t where
  total := hr.total
  back := hplace
  here := hr.here
  skipped := fun m hm => hr.skipped m (List.mem_of_mem_drop hm)
  comments := hr.comments_append hpassed

/-- The places where a statement may end. -/
theorem endings (hr : r.LiesIn t) :
    ∀ e ∈ Parser.endings r, e.1.LiesIn t ∧ ∀ m ∈ e.2, m.LiesIn t := by
  suffices h : ∀ (skipped passed : List Remark) (c : Cursor), c.LiesIn t →
      (∀ m ∈ passed, m.LiesIn t) → (∀ m ∈ skipped, m.LiesIn t) →
      ∀ e ∈ Parser.endings.go c passed skipped, e.1.LiesIn t ∧ ∀ m ∈ e.2, m.LiesIn t from
    h r.skipped [] r.back hr.back (fun _ hm => absurd hm List.not_mem_nil) hr.skipped
  intro skipped
  induction skipped with
  | nil =>
    intro passed c hc hpassed _ e he
    rw [Parser.endings.go, List.mem_singleton] at he
    rw [he]
    exact ⟨hc, hpassed⟩
  | cons m skipped ih =>
    intro passed c hc hpassed hskipped e he
    obtain ⟨hm, hskipped⟩ := List.forall_mem_cons.mp hskipped
    rcases List.mem_cons.mp he with rfl | he
    · exact ⟨hc, hpassed⟩
    · have hnext : ∀ x ∈ passed ++ [m], x.LiesIn t :=
        List.forall_mem_append.mpr ⟨hpassed, List.forall_mem_singleton.mpr hm⟩
      exact ih _ _ hm.after hnext hskipped e he

end Reader.LiesIn

/-! ## Results -/

/-- What a parser may give: something that has a place in a text, or that needs none. -/
class Located (α : Type) where
  /-- Whether a result lies in a text. -/
  LiesIn : Text → α → Prop

instance : Located Node := ⟨Node.LiesIn⟩
instance : Located Nat := ⟨Text.Boundary⟩
instance : Located CodePoint := ⟨fun _ _ => True⟩
instance : Located Bool := ⟨fun _ _ => True⟩
instance : Located Unit := ⟨fun _ _ => True⟩

instance {α : Type} [Located α] : Located (List α) := ⟨fun t as => ∀ a ∈ as, Located.LiesIn t a⟩

instance {α : Type} [Located α] : Located (Option α) := ⟨fun t o => ∀ a ∈ o, Located.LiesIn t a⟩

instance {α β : Type} [Located α] [Located β] : Located (α × β) :=
  ⟨fun t p => Located.LiesIn t p.1 ∧ Located.LiesIn t p.2⟩

/-- A result lies in a text. -/
class LiesIn {α : Type} [Located α] (t : Text) (a : α) : Prop where
  out : Located.LiesIn t a

section Results

variable {α β : Type} [Located α] [Located β]

-- a rule of the grammar names what it has read, and the name carries the proof
instance (a : {a : α // LiesIn t a}) : LiesIn t a.1 := a.2

instance (b : Bool) : LiesIn t b := ⟨trivial⟩
instance (u : Unit) : LiesIn t u := ⟨trivial⟩
instance (u : Text) : LiesIn t u := ⟨fun _ _ => trivial⟩

instance : LiesIn t ([] : List α) := ⟨fun _ h => absurd h List.not_mem_nil⟩

instance (a : α) (as : List α) [ha : LiesIn t a] [has : LiesIn t as] : LiesIn t (a :: as) :=
  ⟨List.forall_mem_cons.mpr ⟨ha.out, has.out⟩⟩

instance (as bs : List α) [has : LiesIn t as] [hbs : LiesIn t bs] : LiesIn t (as ++ bs) :=
  ⟨List.forall_mem_append.mpr ⟨has.out, hbs.out⟩⟩

instance (as : List α) [has : LiesIn t as] : LiesIn t as.reverse :=
  ⟨fun a ha => has.out a (List.mem_reverse.mp ha)⟩

instance (f : α → β) (as : List α) [has : LiesIn t as]
    [hf : ∀ a : {a : α // LiesIn t a}, LiesIn t (f a.1)] : LiesIn t (as.map f) :=
  ⟨List.forall_mem_map.mpr fun a ha => (hf ⟨a, ⟨has.out a ha⟩⟩).out⟩

theorem mapM_liesIn {f : α → Option β} (hf : ∀ a, LiesIn t a → LiesIn t (f a)) {as : List α}
    (has : ∀ a ∈ as, LiesIn t a) : ∀ bs ∈ as.mapM f, ∀ b ∈ bs, LiesIn t b := by
  induction as with
  | nil =>
    rintro _ ⟨⟩ b hb
    exact absurd hb List.not_mem_nil
  | cons a as ih =>
    obtain ⟨ha, has⟩ := List.forall_mem_cons.mp has
    intro bs hbs
    rw [List.mapM_cons] at hbs
    obtain ⟨b, hb, hbs⟩ := Option.bind_eq_some_iff.mp hbs
    obtain ⟨rest, hrest, ⟨⟩⟩ := Option.bind_eq_some_iff.mp hbs
    exact List.forall_mem_cons.mpr ⟨⟨(hf a ha).out b hb⟩, ih has rest hrest⟩

instance (f : α → Option β) (as : List α) [has : LiesIn t as]
    [hf : ∀ a : {a : α // LiesIn t a}, LiesIn t (f a.1)] : LiesIn t (as.mapM f) :=
  ⟨fun bs hbs b hb =>
    (mapM_liesIn (fun a ha => hf ⟨a, ha⟩) (fun a ha => ⟨has.out a ha⟩) bs hbs b hb).out⟩

instance : LiesIn t (none : Option α) := ⟨fun _ h => absurd h (Option.not_mem_none _)⟩

instance (a : α) [ha : LiesIn t a] : LiesIn t (some a) :=
  ⟨fun _ hb => Option.some.inj (Option.mem_def.mp hb) ▸ ha.out⟩

instance (as : List (Option α)) [has : LiesIn t as] : LiesIn t (as.filterMap id) :=
  ⟨fun a ha => by
    obtain ⟨o, ho, rfl⟩ := List.mem_filterMap.mp ha
    exact has.out _ ho a rfl⟩

instance (a : α) (b : β) [ha : LiesIn t a] [hb : LiesIn t b] : LiesIn t (a, b) := ⟨ha.out, hb.out⟩

instance (p : α × β) [hp : LiesIn t p] : LiesIn t p.1 := ⟨hp.out.1⟩

instance (n : Node) (role : Role) [hn : LiesIn t n] : LiesIn t (n.as role) := ⟨by
  have hparts := Node.liesIn_iff.mp hn.out
  exact Node.liesIn_iff.mpr hparts⟩

instance (n : Node) (kind : Kind) [hn : LiesIn t n] : LiesIn t (n.withKind kind) := ⟨by
  have hparts := Node.liesIn_iff.mp hn.out
  exact Node.liesIn_iff.mpr hparts⟩

instance (n : Node) (kind : Kind) (role : Option Role) (children : List Node) [hn : LiesIn t n]
    [hchildren : LiesIn t children] :
    LiesIn t (⟨kind, role, n.start, n.stop, n.text, children⟩ : Node) := ⟨by
  obtain ⟨hstart, hstop, htext, -⟩ := Node.liesIn_iff.mp hn.out
  exact ⟨hstart, hstop, htext, hchildren.out⟩⟩

instance (n : Node) [hn : LiesIn t n] : LiesIn t n.start := ⟨(Node.liesIn_iff.mp hn.out).1⟩

instance (n : Node) [hn : LiesIn t n] : LiesIn t n.stop := ⟨(Node.liesIn_iff.mp hn.out).2.1⟩

instance (n : Node) [hn : LiesIn t n] : LiesIn t n.children :=
  ⟨(Node.liesIn_iff.mp hn.out).2.2.2⟩

instance (kind : Kind) (start stop : Nat) (children : List Node) [hstart : LiesIn t start]
    [hstop : LiesIn t stop] [hchildren : LiesIn t children] :
    LiesIn t (Node.branch kind start stop children) :=
  ⟨⟨hstart.out, hstop.out, List.nil_subset t, hchildren.out⟩⟩

end Results

/-! ## Parsers -/

namespace Parser

/-- A parser that gives what lies in the text, and stays in it. -/
class ReadsIn {α : Type} [Located α] (t : Text) (p : Parser α) : Prop where
  out : ∀ r, r.LiesIn t → ∀ a r', p r = some (a, r') → LiesIn t a ∧ r'.LiesIn t

section Combinators

variable {α β : Type} [Located α] [Located β] {p q : Parser α} {f : α → Parser β}

instance (a : α) [ha : LiesIn t a] : ReadsIn t (pure a : Parser α) := ⟨by
  rintro r hr _ _ ⟨⟩
  exact ⟨ha, hr⟩⟩

instance : ReadsIn t (fail : Parser α) := ⟨fun _ _ _ _ h => by cases h⟩

theorem ReadsIn.bind (hp : ReadsIn t p) (hf : ∀ a, LiesIn t a → ReadsIn t (f a)) :
    ReadsIn t (p >>= f) := ⟨by
  intro r hr b r' h
  obtain ⟨⟨a, s⟩, ha, hb⟩ := Option.bind_eq_some_iff.mp h
  obtain ⟨hin, hs⟩ := hp.out r hr a s ha
  exact (hf a hin).out s hs b r' hb⟩

instance [hp : ReadsIn t p] [hf : ∀ a : {a : α // LiesIn t a}, ReadsIn t (f a.1)] :
    ReadsIn t (p >>= f) :=
  hp.bind fun a ha => hf ⟨a, ha⟩

instance (g : α → β) [hp : ReadsIn t p] [hg : ∀ a : {a : α // LiesIn t a}, LiesIn t (g a.1)] :
    ReadsIn t (g <$> p) := by
  rw [map_eq_pure_bind]
  infer_instance

instance (c : Prop) [Decidable c] [hp : ReadsIn t p] [hq : ReadsIn t q] :
    ReadsIn t (if c then p else q) := by
  split
  · exact hp
  · exact hq

instance (b : Bool) : ReadsIn t (require b) := by
  unfold require
  infer_instance

instance (o : Option α) [ho : LiesIn t o] : ReadsIn t (demand o) := by
  unfold demand
  cases o with
  | none => infer_instance
  | some a =>
    have ha : LiesIn t a := ⟨ho.out a rfl⟩
    infer_instance

instance [hp : ReadsIn t p] [hq : ReadsIn t q] : ReadsIn t (orElse p q) := ⟨by
  intro r hr a r' h
  unfold orElse at h
  cases hresult : p r with
  | none =>
    rw [hresult] at h
    exact hq.out r hr a r' h
  | some result =>
    rw [hresult] at h
    exact hp.out r hr a r' (hresult.trans h)⟩

instance [hp : ReadsIn t p] : ReadsIn t (optional p) := ⟨by
  intro r hr o r' h
  unfold optional at h
  cases hresult : p r with
  | none =>
    rw [hresult] at h
    cases h
    exact ⟨inferInstance, hr⟩
  | some result =>
    obtain ⟨a, s⟩ := result
    rw [hresult] at h
    cases h
    obtain ⟨ha, hs⟩ := hp.out r hr a _ hresult
    exact ⟨inferInstance, hs⟩⟩

instance {γ : Type} (p : Parser γ) : ReadsIn t (succeeds p) := ⟨by
  rintro r hr _ _ ⟨⟩
  exact ⟨inferInstance, hr⟩⟩

theorem iterateFor_readsIn {step : α → Parser (Option α)}
    (hstep : ∀ a, LiesIn t a → ReadsIn t (step a)) (fuel : Nat) (a : α) (ha : LiesIn t a) :
    ReadsIn t (iterateFor step fuel a) := by
  induction fuel generalizing a with
  | zero =>
    unfold iterateFor
    infer_instance
  | succ fuel ih =>
    unfold iterateFor
    refine (hstep a ha).bind fun next hnext => ?_
    cases next with
    | none => exact (inferInstance : ReadsIn t (pure a))
    | some b => exact ih b ⟨hnext.out b rfl⟩

instance (step : α → Parser (Option α)) (a : α)
    [hstep : ∀ a : {a : α // LiesIn t a}, ReadsIn t (step a.1)] [ha : LiesIn t a] :
    ReadsIn t (iterate step a) :=
  ⟨fun r => (iterateFor_readsIn (fun b hb => hstep ⟨b, hb⟩) r.fuel a ha).out r⟩

instance (item : Parser (Option α)) [hitem : ReadsIn t item] : ReadsIn t (many item) := by
  have hstep : ∀ found : {found : List α // LiesIn t found}, ReadsIn t (do
      match ← item with
      | none => pure none
      | some a => pure (some (a :: found.1))) := by
    intro found
    refine hitem.bind fun a ha => ?_
    cases a with
    | none => infer_instance
    | some a =>
      have hin : LiesIn t a := ⟨ha.out a rfl⟩
      infer_instance
  unfold many
  infer_instance

end Combinators

/-! ## Places and tokens -/

instance : ReadsIn t ahead := ⟨by
  rintro r hr _ _ ⟨⟩
  exact ⟨inferInstance, hr⟩⟩

instance : ReadsIn t position := ⟨by
  rintro r hr _ _ ⟨⟩
  exact ⟨⟨hr.here.boundary⟩, hr⟩⟩

instance : ReadsIn t lastStop := ⟨by
  rintro r hr _ _ ⟨⟩
  exact ⟨⟨hr.back.boundary⟩, hr⟩⟩

instance (kind : Kind) (n : Nat) : ReadsIn t (token kind n) := ⟨by
  intro r hr a r' h
  unfold token at h
  split at h
  · cases h
  · cases h
    exact ⟨⟨hr.here.leaf kind n⟩, hr.advanceTo (hr.here.move n)⟩⟩

instance (continuable : Bool) : ReadsIn t (autoEnd continuable) := ⟨by
  intro r hr a r' h
  unfold autoEnd at h
  split at h
  · rename_i place passed hfind
    cases h
    obtain ⟨hplace, hpassed⟩ := hr.endings _ (List.mem_of_find?_eq_some hfind)
    exact ⟨inferInstance, hr.settle hplace hpassed⟩
  · cases h⟩

theorem readsIn_node {kind : Kind} {p : Parser (List Node)} (hp : ReadsIn t p) :
    ReadsIn t (node kind p) := by
  unfold node
  infer_instance

instance (kind : Kind) (p : Parser (List Node)) [hp : ReadsIn t p] : ReadsIn t (node kind p) :=
  readsIn_node hp

instance (kind : Kind) (start : Nat) (children : List Node) [LiesIn t start] [LiesIn t children] :
    ReadsIn t (nodeFrom kind start children) := by
  unfold nodeFrom
  infer_instance

instance : ReadsIn t atEnd := by
  unfold atEnd
  infer_instance

instance : ReadsIn t punctuation := by
  unfold punctuation
  infer_instance

instance (s : String) : ReadsIn t (sees s) := by
  unfold sees
  infer_instance

instance (ch : Char) : ReadsIn t (seesChar ch) := by
  unfold seesChar
  infer_instance

instance (s : String) : ReadsIn t (mark s) := by
  unfold mark
  infer_instance

instance (ch : Char) : ReadsIn t (single ch) := by
  unfold single
  infer_instance

instance (s : String) : ReadsIn t (mark? s) := by
  unfold mark?
  infer_instance

instance : ReadsIn t word := by
  unfold word
  infer_instance

instance (s : String) : ReadsIn t (seesWord s) := by
  unfold seesWord
  infer_instance

instance (s : String) : ReadsIn t (keywordNode s) := by
  unfold keywordNode
  infer_instance

instance (s : String) : ReadsIn t (keyword s) := by
  unfold keyword
  infer_instance

instance (s : String) : ReadsIn t (keyword? s) := by
  unfold keyword?
  infer_instance

instance (kind : Kind) : ReadsIn t (anyWord kind) := by
  unfold anyWord
  infer_instance

instance (kind : Kind) : ReadsIn t (name kind) := by
  unfold name
  infer_instance

instance : ReadsIn t seesName := by
  unfold seesName
  infer_instance

instance (continuable : Bool) : ReadsIn t (semicolon continuable) := by
  unfold semicolon
  infer_instance

instance (continuable : Bool) : ReadsIn t (lineBreaks continuable) := by
  unfold lineBreaks
  infer_instance

instance (continuable : Bool) : ReadsIn t (blockEnd continuable) := by
  unfold blockEnd
  infer_instance

end Parser

end Debundle.Script
