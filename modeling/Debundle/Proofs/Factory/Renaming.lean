import Debundle.Proofs.Factory.Restoring
import Debundle.Proofs.Script.Respelling
import Debundle.Proofs.Script.Splicing

/-!
# Other names for the parameters of a factory

A minifier gives the three parameters of a factory other names, wherever they are used, and changes
nothing else.  The new names occur nowhere else, so restoring the module finds them exactly where
the minifier put them: the parameters it renames are the three, and the references it renames are
those that had the names by convention.

* `Renaming`: a factory and three other names for its parameters.
* `Renaming.replacements`, `Renaming.respelling`: what changes in the text and in the tree.
* `Renaming.IsConventional`, `Renaming.IsFresh`, `Source.IsPlaced`: what is expected of the factory,
  of the new names, and of the tree.
* `Renaming.spelling_eq_some_iff`: what gets a new name.
* `Renaming.selected_respelled`: the references that get their old names back.
* `Renaming.mem_factoryEdits_respelled`: the edits that put the old names back.
-/

namespace Debundle

open Script

/-- In the tree of a script everything is nested, and an identifier is a leaf that carries the text
at its place. -/
structure Script.Source.IsPlaced (source : Source) : Prop where
  nested : source.root.IsNested
  identifier : ∀ n ∈ source.root.all, n.kind = .identifier →
    n.children = [] ∧ source.bytes.slice n.start n.stop = n.text.bytes

instance (source : Source) : Decidable source.IsPlaced :=
  decidable_of_iff (source.root.IsNested ∧ ∀ n ∈ source.root.all, n.kind = .identifier →
      n.children = [] ∧ source.bytes.slice n.start n.stop = n.text.bytes)
    ⟨fun ⟨hnested, hidentifier⟩ => ⟨hnested, hidentifier⟩, fun h => ⟨h.nested, h.identifier⟩⟩

theorem Script.Source.IsPlaced.isToken {source : Source} (hplaced : source.IsPlaced) {n : Node}
    (hn : n ∈ source.root.all) (hkind : n.kind = .identifier) (htext : n.text ≠ []) :
    n.IsToken := by
  obtain ⟨hchildren, hslice⟩ := hplaced.identifier n hn hkind
  refine ⟨hchildren, Nat.lt_of_not_le fun hle => ?_⟩
  have hlength := congrArg List.length hslice
  rw [Bytes.slice_eq_nil hle, Text.length_bytes, List.length_nil] at hlength
  have hpos := utf8Size_pos htext
  omega

namespace Factory

/-- The parameters of a function. -/
def parameters (function : Node) : List Node :=
  ((function.part? .parameters).map Node.parts).getD []

/-- A factory, and three other names for its parameters. -/
structure Renaming where
  /-- The script. -/
  source : Source
  /-- The function in it. -/
  function : Node
  /-- The body of the function. -/
  body : Node
  /-- The new names. -/
  names : List Text

namespace Renaming

/-- The first three parameters, and the references to the names by convention in the body. -/
def uses (r : Renaming) : List Node :=
  (parameters r.function).take 3 ++ parameterNames.flatMap (references r.body)

/-- The new name of a parameter, wherever it is used. -/
def spelling (r : Renaming) (n : Node) : Option Text :=
  if n.kind == .identifier && r.uses.any (·.span == n.span) then
    (parameterNames.zip r.names).lookup n.text
  else none

/-- All uses of the parameters, from left to right, with the new names. -/
def replacements (r : Renaming) : List Edit :=
  (r.source.root.all.filter fun n => (r.spelling n).isSome).map fun n =>
    ⟨n.start, n.stop, (r.spelling n).getD n.text⟩

/-- The new names for the uses of the parameters, and the new offsets for everything. -/
def respelling (r : Renaming) : Respelling := ⟨r.spelling, shifted r.replacements⟩

/-- The parameters of the factory have the names by convention, are given no other value, and no
property is named after them in short form. -/
structure IsConventional (r : Renaming) : Prop where
  read : read r.source = .ok (r.function, r.body)
  parameters : ((parameters r.function).take 3).map (fun p => (p.kind, p.text)) =
    parameterNames.map fun name => (.identifier, name)
  settled : ∀ name ∈ parameterNames, firstReassignment r.body name = none
  written : ∀ name ∈ parameterNames, ∀ n ∈ references r.body name,
    n.kind ≠ .shorthandPropertyIdentifier

/-- The new names are three different ones that occur nowhere in the script. -/
structure IsFresh (r : Renaming) : Prop where
  length : r.names.length = 3
  nodup : r.names.Nodup
  ne_nil : ∀ name ∈ r.names, name ≠ []
  absent : ∀ name ∈ r.names, ∀ n ∈ r.source.root.all, n.text ≠ name

/-- A script is the factory with the new names: in its bytes and in its tree, the uses of the
parameters are replaced. -/
structure Gives (r : Renaming) (renamed : Source) : Prop where
  bytes : renamed.bytes = spliced r.source.bytes 0 r.replacements
  root : renamed.root = r.source.root.respelled r.respelling

instance (r : Renaming) : Decidable r.IsConventional :=
  decidable_of_iff (Factory.read r.source = .ok (r.function, r.body) ∧
      ((Factory.parameters r.function).take 3).map (fun p => (p.kind, p.text)) =
        parameterNames.map (fun name => (.identifier, name)) ∧
      (∀ name ∈ parameterNames, firstReassignment r.body name = none) ∧
      ∀ name ∈ parameterNames, ∀ n ∈ references r.body name, n.kind ≠ .shorthandPropertyIdentifier)
    ⟨fun ⟨hread, hparameters, hsettled, hwritten⟩ => ⟨hread, hparameters, hsettled, hwritten⟩,
      fun h => ⟨h.read, h.parameters, h.settled, h.written⟩⟩

instance (r : Renaming) : Decidable r.IsFresh :=
  decidable_of_iff (r.names.length = 3 ∧ r.names.Nodup ∧ (∀ name ∈ r.names, name ≠ []) ∧
      ∀ name ∈ r.names, ∀ n ∈ r.source.root.all, n.text ≠ name)
    ⟨fun ⟨hlength, hnodup, hne, habsent⟩ => ⟨hlength, hnodup, hne, habsent⟩,
      fun h => ⟨h.length, h.nodup, h.ne_nil, h.absent⟩⟩

instance (r : Renaming) (renamed : Source) : Decidable (r.Gives renamed) :=
  decidable_of_iff (renamed.bytes = spliced r.source.bytes 0 r.replacements ∧
      renamed.root = r.source.root.respelled r.respelling)
    ⟨fun ⟨hbytes, hroot⟩ => ⟨hbytes, hroot⟩, fun h => ⟨h.bytes, h.root⟩⟩

end Renaming

/-! ## Old and new names -/

theorem parameterNames_ne_nil {name : Text} (h : name ∈ parameterNames) : name ≠ [] := by
  have hall : ∀ name ∈ parameterNames, name ≠ [] := by decide
  exact hall name h

/-- Different keys are looked up. -/
theorem lookup_zip_iff {keys values : List Text} (h : keys.Nodup) {key value : Text} :
    (keys.zip values).lookup key = some value ↔ (key, value) ∈ keys.zip values := by
  induction keys generalizing values with
  | nil => simp
  | cons k keys ih =>
    cases values with
    | nil => simp
    | cons v values =>
      obtain ⟨hk, hkeys⟩ := List.nodup_cons.mp h
      rw [List.zip_cons_cons, List.lookup_cons, List.mem_cons, Prod.mk.injEq]
      by_cases hkey : key = k
      · subst hkey
        have hnot : ¬(key, value) ∈ keys.zip values := fun hmem => hk (List.of_mem_zip hmem).1
        simp [hnot, eq_comm]
      · rw [beq_eq_false_iff_ne.mpr hkey]
        simpa [hkey] using ih hkeys

theorem exists_mem_zip {keys values : List Text} (h : keys.length ≤ values.length) {key : Text}
    (hkey : key ∈ keys) : ∃ value, (key, value) ∈ keys.zip values := by
  rw [← List.map_fst_zip h] at hkey
  obtain ⟨⟨k, value⟩, hmem, rfl⟩ := List.mem_map.mp hkey
  exact ⟨value, hmem⟩

/-- Different values have different keys. -/
theorem eq_of_mem_zip {keys values : List Text} (h : values.Nodup) {key key' value : Text}
    (hkey : (key, value) ∈ keys.zip values) (hkey' : (key', value) ∈ keys.zip values) :
    key = key' := by
  induction keys generalizing values with
  | nil => cases hkey
  | cons k keys ih =>
    cases values with
    | nil => cases hkey
    | cons v values =>
      obtain ⟨hv, hvalues⟩ := List.nodup_cons.mp h
      rw [List.zip_cons_cons, List.mem_cons, Prod.mk.injEq] at hkey hkey'
      rcases hkey with ⟨rfl, rfl⟩ | hkey
      · rcases hkey' with ⟨rfl, -⟩ | hkey'
        · rfl
        · exact absurd (List.of_mem_zip hkey').2 hv
      · rcases hkey' with ⟨-, rfl⟩ | hkey'
        · exact absurd (List.of_mem_zip hkey).2 hv
        · exact ih hvalues hkey hkey'

/-! ## The parameters -/

theorem exists_of_mem_parameters {function n : Node} (hn : n ∈ parameters function) :
    ∃ list, function.part? .parameters = some list ∧ n ∈ list.parts := by
  unfold parameters at hn
  cases hlist : function.part? .parameters with
  | none =>
    rw [hlist] at hn
    exact absurd hn List.not_mem_nil
  | some list =>
    rw [hlist] at hn
    exact ⟨list, rfl, hn⟩

theorem mem_all_of_mem_parameters {function n : Node} (hn : n ∈ parameters function) :
    n ∈ function.all := by
  obtain ⟨list, hlist, hn⟩ := exists_of_mem_parameters hn
  exact Node.mem_all_trans (Node.mem_all_of_part? hlist)
    (Node.mem_all_of_mem_children (Node.mem_children_of_mem_parts hn) n.mem_all_self)

/-- A parameter stands before or behind the body. -/
theorem apart_of_mem_parameters {function body n m : Node} (hfunction : function.IsNested)
    (hbody : function.part? .body = some body) (hn : n ∈ parameters function) (hm : m ∈ body.all) :
    n.stop ≤ m.start ∨ m.stop ≤ n.start := by
  obtain ⟨list, hlist, hn⟩ := exists_of_mem_parameters hn
  have hne : list ≠ body := by
    rintro rfl
    have hrole := List.find?_some hlist
    have hrole' := List.find?_some hbody
    rw [beq_iff_eq] at hrole hrole'
    rw [hrole] at hrole'
    cases hrole'
  exact hfunction.apart (Node.mem_children_of_part? hlist) (Node.mem_children_of_part? hbody) hne
    (Node.mem_all_of_mem_children (Node.mem_children_of_mem_parts hn) n.mem_all_self) hm

theorem parameters_respelled (s : Respelling) (function : Node) :
    parameters (function.respelled s) = (parameters function).map (Node.respelled s) := by
  unfold parameters
  rw [Node.part?_respelled]
  cases function.part? .parameters with
  | none => rfl
  | some list => exact list.parts_respelled s

namespace Renaming

variable {r : Renaming} {n : Node} {old new : Text}

/-! ## What gets a new name -/

theorem IsConventional.mem_all_body (h : r.IsConventional) : r.body ∈ r.source.root.all :=
  Node.mem_all_trans (mem_all_of_read h.read).1 (Node.mem_all_of_part? (mem_all_of_read h.read).2.1)

theorem IsConventional.of_mem_parameters (h : r.IsConventional)
    (hn : n ∈ (Factory.parameters r.function).take 3) :
    n.kind = .identifier ∧ n.text ∈ parameterNames := by
  have hmem := List.mem_map_of_mem (f := fun p : Node => (p.kind, p.text)) hn
  rw [h.parameters] at hmem
  obtain ⟨name, hname, heq⟩ := List.mem_map.mp hmem
  obtain ⟨hkind, htext⟩ := Prod.mk.inj heq
  exact ⟨hkind.symm, htext ▸ hname⟩

theorem IsConventional.of_mem_references (h : r.IsConventional) (hold : old ∈ parameterNames)
    (hn : n ∈ references r.body old) : n.kind = .identifier ∧ n.text = old := by
  have hreference := (List.mem_filter.mp hn).2
  simp only [isReference, Bool.and_eq_true, Bool.or_eq_true, beq_iff_eq] at hreference
  exact ⟨hreference.1.resolve_right (h.written old hold n hn), hreference.2⟩

theorem mem_uses_of_mem_references (hold : old ∈ parameterNames) (hn : n ∈ references r.body old) :
    n ∈ r.uses :=
  List.mem_append_right _ (List.mem_flatMap.mpr ⟨old, hold, hn⟩)

/-- Every use of a parameter is an identifier with one of the three names. -/
theorem IsConventional.of_mem_uses (h : r.IsConventional) (hn : n ∈ r.uses) :
    n ∈ r.source.root.all ∧ n.kind = .identifier ∧ n.text ∈ parameterNames := by
  rcases List.mem_append.mp hn with hn | hn
  · exact ⟨Node.mem_all_trans (mem_all_of_read h.read).1
      (mem_all_of_mem_parameters (List.mem_of_mem_take hn)), h.of_mem_parameters hn⟩
  · obtain ⟨name, hname, hn⟩ := List.mem_flatMap.mp hn
    obtain ⟨hkind, htext⟩ := h.of_mem_references hname hn
    exact ⟨Node.mem_all_trans h.mem_all_body (mem_all_of_mem_references hn), hkind, htext ▸ hname⟩

theorem isToken_of_mem_uses (hplaced : r.source.IsPlaced) (h : r.IsConventional) (hn : n ∈ r.uses) :
    n.IsToken := by
  obtain ⟨hroot, hkind, htext⟩ := h.of_mem_uses hn
  exact hplaced.isToken hroot hkind (parameterNames_ne_nil htext)

/-- A use of a parameter inside the body is a reference to it. -/
theorem mem_references_of_mem_uses (hplaced : r.source.IsPlaced) (h : r.IsConventional)
    (hn : n ∈ r.uses) (hstart : r.body.start ≤ n.start) (hstop : n.stop ≤ r.body.stop) :
    n.text ∈ parameterNames ∧ n ∈ references r.body n.text := by
  have hlt := (isToken_of_mem_uses hplaced h hn).start_lt_stop
  rcases List.mem_append.mp hn with hn | hn
  · -- the parameters themselves stand outside of the body
    obtain ⟨hfunction, hbody, -⟩ := mem_all_of_read h.read
    have hapart := apart_of_mem_parameters (hplaced.nested.of_mem_all hfunction) hbody
      (List.mem_of_mem_take hn) r.body.mem_all_self
    omega
  · obtain ⟨name, hname, hn⟩ := List.mem_flatMap.mp hn
    obtain ⟨-, rfl⟩ := h.of_mem_references hname hn
    exact ⟨hname, hn⟩

/-- The uses of the parameters, and nothing else, get new names. -/
theorem spelling_eq_some_iff (hplaced : r.source.IsPlaced) (h : r.IsConventional)
    (hn : n ∈ r.source.root.all) :
    r.spelling n = some new ↔ n ∈ r.uses ∧ (n.text, new) ∈ parameterNames.zip r.names := by
  have hnodup : parameterNames.Nodup := by decide
  unfold spelling
  constructor
  · intro hnew
    split at hnew
    · rename_i huse
      rw [lookup_zip_iff hnodup] at hnew
      simp only [Bool.and_eq_true, List.any_eq_true, beq_iff_eq] at huse
      obtain ⟨hkind, m, hm, hspan⟩ := huse
      have hntoken := hplaced.isToken hn hkind (parameterNames_ne_nil (List.of_mem_zip hnew).1)
      obtain rfl : m = n := hplaced.nested.eq_of_span_eq (h.of_mem_uses hm).1 hn
        (isToken_of_mem_uses hplaced h hm) hntoken hspan
      exact ⟨hm, hnew⟩
    · cases hnew
  · rintro ⟨huse, hnew⟩
    obtain ⟨-, hkind, -⟩ := h.of_mem_uses huse
    rw [if_pos, lookup_zip_iff hnodup]
    · exact hnew
    · simp only [Bool.and_eq_true, List.any_eq_true, beq_iff_eq]
      exact ⟨hkind, n, huse, rfl⟩

/-- A new name stands exactly where a use of a parameter got it. -/
theorem respelled_text_eq_iff (hfresh : r.IsFresh) (hn : n ∈ r.source.root.all)
    (hnew : new ∈ r.names) : (n.respelled r.respelling).text = new ↔ r.spelling n = some new := by
  rw [Node.respelled_text]
  show (r.spelling n).getD n.text = new ↔ _
  cases r.spelling n with
  | none => exact iff_of_false (hfresh.absent new hnew n hn) (by simp)
  | some t => exact Option.some_inj.symm

/-! ## What gets its old name back -/

/-- Below the body, the new name of a parameter stands where the parameter is referred to. -/
theorem replaces_respelling (hplaced : r.source.IsPlaced) (h : r.IsConventional)
    (hfresh : r.IsFresh) (hpair : (old, new) ∈ parameterNames.zip r.names) {c : Node}
    (hc : c ∈ r.body.children) : r.respelling.Replaces old new c := by
  have hbody := hplaced.nested.of_mem_all h.mem_all_body
  have hroot : ∀ m ∈ c.all, m ∈ r.source.root.all := fun m hm =>
    Node.mem_all_trans h.mem_all_body (Node.mem_all_of_mem_children hc hm)
  have huse : ∀ m ∈ c.all, (m.respelled r.respelling).text = new → m ∈ r.uses ∧ m.text = old := by
    intro m hm hnew
    rw [respelled_text_eq_iff hfresh (hroot m hm) (List.of_mem_zip hpair).2,
      spelling_eq_some_iff hplaced h (hroot m hm)] at hnew
    exact ⟨hnew.1, eq_of_mem_zip hfresh.nodup hnew.2 hpair⟩
  have htoken : ∀ m ∈ c.all, (m.respelled r.respelling).text = new → m.IsToken := fun m hm hnew =>
    isToken_of_mem_uses hplaced h (huse m hm hnew).1
  refine ⟨⟨fun m hm hnew => (huse m hm hnew).2, fun m hm hvar => ?_⟩, htoken, fun m hm hnew => ?_⟩
  · -- none of the three names declares a variable
    rw [Node.respelled_text]
    show (r.spelling m).getD m.text = _
    cases hspelling : r.spelling m with
    | none => exact hvar
    | some t =>
      have hmem := ((spelling_eq_some_iff hplaced h (hroot m hm)).mp hspelling).2
      rw [hvar] at hmem
      exact absurd (List.of_mem_zip hmem).1 (by decide)
  · obtain ⟨hmuse, rfl⟩ := huse m hm hnew
    obtain ⟨hstart, hstop⟩ := hbody.within (Node.mem_all_of_mem_children hc hm)
    have hreference := (mem_references_of_mem_uses hplaced h hmuse hstart hstop).2
    have hwalk := List.mem_of_mem_filter hreference
    rw [walk_eq] at hwalk
    exact mem_kept_of_mem_flatMap hbody hc hm (htoken m hm hnew) hwalk

/-- The references to a parameter that are renamed back are those that got its new name. -/
theorem selected_respelled (hplaced : r.source.IsPlaced) (h : r.IsConventional) (hfresh : r.IsFresh)
    (hpair : (old, new) ∈ parameterNames.zip r.names) :
    selected (r.body.respelled r.respelling) new =
      (references r.body old).map (Node.respelled r.respelling) := by
  have hnested := hplaced.nested.of_mem_all h.mem_all_body
  have hreplaces : ∀ c ∈ r.body.children, r.respelling.Replaces old new c := fun c hc =>
    replaces_respelling hplaced h hfresh hpair hc
  have hold : old ∈ parameterNames := (List.of_mem_zip hpair).1
  rw [selected, firstReassignment_respelled hreplaces hnested (h.settled old hold)]
  refine references_respelled hreplaces hnested fun m hm => ?_
  have hmroot := Node.mem_all_trans h.mem_all_body (mem_all_of_mem_references hm)
  obtain ⟨-, htext⟩ := h.of_mem_references hold hm
  rw [respelled_text_eq_iff hfresh hmroot (List.of_mem_zip hpair).2,
    spelling_eq_some_iff hplaced h hmroot, htext]
  exact ⟨mem_uses_of_mem_references hold hm, hpair⟩

/-- The three parameters have the three names. -/
theorem IsConventional.exists_parameters (h : r.IsConventional) :
    ∃ p q s rest, Factory.parameters r.function = p :: q :: s :: rest ∧
      [(p.kind, p.text), (q.kind, q.text), (s.kind, s.text)] =
        parameterNames.map fun name => (.identifier, name) := by
  have hparameters := h.parameters
  have hlength := congrArg List.length hparameters
  rcases hlist : Factory.parameters r.function with _ | ⟨p, _ | ⟨q, _ | ⟨s, rest⟩⟩⟩ <;>
    rw [hlist] at hparameters hlength
  · simp [parameterNames] at hlength
  · simp [parameterNames] at hlength
  · simp [parameterNames] at hlength
  · exact ⟨p, q, s, rest, rfl, hparameters⟩

/-- Parameters that have the names by convention are not renamed. -/
theorem renames_eq_nil (h : r.IsConventional) : renames r.function = [] := by
  obtain ⟨p, q, s, rest, hlist, hnames⟩ := h.exists_parameters
  simp only [parameterNames, List.map_cons, List.map_nil, List.cons.injEq, Prod.mk.injEq] at hnames
  unfold renames
  rw [← Factory.parameters, hlist]
  simp [parameterNames, hnames]

/-- Parameters that have other names get the names by convention. -/
theorem renames_respelled (hplaced : r.source.IsPlaced) (h : r.IsConventional)
    (hfresh : r.IsFresh) :
    renames (r.function.respelled r.respelling) = (parameterNames.zip r.names).map Prod.swap := by
  have hparameter : ∀ p ∈ (Factory.parameters r.function).take 3, ∀ new,
      (p.text, new) ∈ parameterNames.zip r.names → p.text ≠ new ∧
        (p.respelled r.respelling).text = new := by
    intro p hp new hpair
    have huse : p ∈ r.uses := List.mem_append_left _ hp
    obtain ⟨hroot, -⟩ := h.of_mem_uses huse
    have hnew := (List.of_mem_zip hpair).2
    refine ⟨hfresh.absent new hnew p hroot, ?_⟩
    rw [respelled_text_eq_iff hfresh hroot hnew, spelling_eq_some_iff hplaced h hroot]
    exact ⟨huse, hpair⟩
  obtain ⟨p, q, s, rest, hlist, hnames⟩ := h.exists_parameters
  obtain ⟨e, t, n, hthree⟩ := List.length_eq_three.mp hfresh.length
  simp only [parameterNames, List.map_cons, List.map_nil, List.cons.injEq, Prod.mk.injEq] at hnames
  obtain ⟨⟨hpkind, hptext⟩, ⟨hqkind, hqtext⟩, ⟨hskind, hstext⟩, -⟩ := hnames
  obtain ⟨hpne, hp⟩ := hparameter p (by simp [hlist]) e (by simp [parameterNames, hptext, hthree])
  obtain ⟨hqne, hq⟩ := hparameter q (by simp [hlist]) t (by simp [parameterNames, hqtext, hthree])
  obtain ⟨hsne, hs⟩ := hparameter s (by simp [hlist]) n (by simp [parameterNames, hstext, hthree])
  have hnodup := hfresh.nodup
  rw [hthree] at hnodup
  simp only [List.nodup_cons, List.mem_cons, List.not_mem_nil, not_or, or_false] at hnodup
  obtain ⟨⟨het, hen⟩, htn, -⟩ := hnodup
  rw [hptext] at hpne
  rw [hqtext] at hqne
  rw [hstext] at hsne
  unfold renames
  rw [← Factory.parameters, parameters_respelled, hlist, hthree]
  simp [parameterNames, hpkind, hqkind, hskind, hp, hq, hs, Ne.symm hpne, Ne.symm hqne,
    Ne.symm hsne, Table.insert, het, hen, htn]

/-- The edit that puts the name of a parameter back at a reference to it. -/
def undoing (r : Renaming) (old : Text) (m : Node) : Edit :=
  ⟨shifted r.replacements m.start, shifted r.replacements m.stop, old⟩

/-- The edits that put the names by convention back. -/
theorem mem_factoryEdits_respelled (hplaced : r.source.IsPlaced) (h : r.IsConventional)
    (hfresh : r.IsFresh) {e : Edit} :
    e ∈ factoryEdits (r.function.respelled r.respelling) (r.body.respelled r.respelling) ↔
      ∃ old ∈ parameterNames, ∃ m ∈ references r.body old, e = r.undoing old m := by
  have hrename : ∀ old new, (old, new) ∈ parameterNames.zip r.names →
      renameEdits old (selected (r.body.respelled r.respelling) new) =
        (references r.body old).map (r.undoing old) := by
    intro old new hpair
    rw [selected_respelled hplaced h hfresh hpair, renameEdits, List.map_map]
    refine List.map_congr_left fun m hm => ?_
    obtain ⟨hkind, -⟩ := h.of_mem_references (List.of_mem_zip hpair).1 hm
    rw [Function.comp_apply, renameEdit, Node.respelled_kind, hkind, Node.respelled_start,
      Node.respelled_stop]
    rfl
  unfold factoryEdits parameterRenames
  rw [renames_respelled hplaced h hfresh, List.flatMap_map, List.flatMap_map, List.mem_flatMap]
  refine ⟨?_, ?_⟩
  · rintro ⟨⟨old, new⟩, hpair, he⟩
    rw [Prod.swap_prod_mk, hrename old new hpair] at he
    obtain ⟨m, hm, rfl⟩ := List.mem_map.mp he
    exact ⟨old, (List.of_mem_zip hpair).1, m, hm, rfl⟩
  · rintro ⟨old, hold, m, hm, rfl⟩
    have hlength : parameterNames.length ≤ r.names.length := hfresh.length.ge
    obtain ⟨new, hpair⟩ := exists_mem_zip hlength hold
    refine ⟨(old, new), hpair, ?_⟩
    rw [Prod.swap_prod_mk, hrename old new hpair]
    exact List.mem_map_of_mem hm

end Renaming
end Factory
end Debundle
