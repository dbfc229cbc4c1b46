import Debundle.Proofs.Forest.Adoption

/-!
# What is settled stays

A forest changes in one direction only.  Items come but do not go, and stay in the order in which
they came; a placeholder may get a name, but a name is never taken back or replaced; an item may
be moved, but never out of all directories; conflicts are added at the end.  So what a conflict
says about its item is true as long as the forest lives.

* `Forest.Item.Keeps`: how an item may be found later.
* `Forest.Keeps`: how a forest may be found later.
* `Forest.Change.keeps`, `Forest.Evolves.keeps`: one change, and any number of them.
* `Forest.NameConflict.Stands`: a conflict says the truth about its item.
* `Forest.keeps_afterAll_append`: both, of any run of operations.
-/

namespace Debundle
namespace Forest

variable {S : Scope} {f g h : Forest} {x : Text}

/-! ## One item, earlier and later -/

/-- What is kept of an item: it stays a file or a directory, a settled name stays, and an item in a
directory stays in some directory. -/
structure Item.Keeps (i j : Item) : Prop where
  isFile : j.isFile = i.isFile
  settled : i.isPlaceholder = false → j.isPlaceholder = false
  name : i.isPlaceholder = false → j.name = i.name
  parent : i.parent.isSome = true → j.parent.isSome = true

theorem Item.Keeps.refl (i : Item) : i.Keeps i := .mk rfl (fun h => h) (fun _ => rfl) fun h => h

theorem Item.Keeps.trans {i j k : Item} (hij : i.Keeps j) (hjk : j.Keeps k) : i.Keeps k where
  isFile := hjk.isFile.trans hij.isFile
  settled hi := hjk.settled (hij.settled hi)
  name hi := (hjk.name (hij.settled hi)).trans (hij.name hi)
  parent hi := hjk.parent (hij.parent hi)

/-- Only links are different, and the item is in a directory if it was in one. -/
theorem Item.Keeps.of_bare {i j : Item} (hbare : j.bare = i.bare)
    (hparent : i.parent.isSome = true → j.parent.isSome = true) : i.Keeps j where
  isFile := by simpa [Item.bare] using congrArg Item.isFile hbare
  settled hi := by
    have hsame : j.isPlaceholder = i.isPlaceholder := by
      simpa [Item.bare] using congrArg Item.isPlaceholder hbare
    rw [hsame, hi]
  name _ := by simpa [Item.bare] using congrArg Item.name hbare
  parent := hparent

theorem Item.Keeps.of_placeholder {i : Item} (hi : i.isPlaceholder = true) (name : Text) :
    i.Keeps (i.settled name) where
  isFile := rfl
  settled _ := rfl
  name hsettled := absurd hsettled (by simp [hi])
  parent hparent := hparent

/-! ## A forest, earlier and later -/

/-- What is kept of a forest: the items in the order in which they came, what is kept of each of
them, and the conflicts. -/
structure Keeps (f g : Forest) : Prop where
  order : f.items.map Item.id <+: g.items.map Item.id
  item : ∀ x i, f.find? x = some i → ∃ j, g.find? x = some j ∧ i.Keeps j
  conflicts : f.conflicts <+: g.conflicts

theorem Keeps.refl (f : Forest) : f.Keeps f where
  order := List.prefix_refl _
  item _ i hi := ⟨i, hi, .refl i⟩
  conflicts := List.prefix_refl _

theorem Keeps.trans (hfg : f.Keeps g) (hgh : g.Keeps h) : f.Keeps h where
  order := hfg.order.trans hgh.order
  item x i hi := by
    obtain ⟨j, hj, hij⟩ := hfg.item x i hi
    obtain ⟨k, hk, hjk⟩ := hgh.item x j hj
    exact ⟨k, hk, hij.trans hjk⟩
  conflicts := hfg.conflicts.trans hgh.conflicts

theorem keeps_insert (f : Forest) (item : Item) : f.Keeps (f.insert item) where
  order := by
    rw [Forest.insert, List.map_append]
    exact List.prefix_append _ _
  item x i hi := ⟨i, by rw [find?_insert, hi, Option.some_or], .refl i⟩
  conflicts := List.prefix_refl _

theorem keeps_settle {i : Item} (hi : f.find? i.id = some i) (hplaceholder : i.isPlaceholder = true)
    (name : Text) : f.Keeps (f.settle i.id name) where
  order := by
    simp only [settle_eq, map_id_update _ _ (Item.settled_id name), List.prefix_rfl]
  item x k hk := by
    rw [find?_settle]
    by_cases hx : x = i.id
    · subst hx
      obtain rfl : i = k := Option.some_inj.mp (hi.symm.trans hk)
      exact ⟨i.settled name, by rw [if_pos rfl, hk, Option.map_some],
        .of_placeholder hplaceholder name⟩
    · exact ⟨k, by rw [if_neg hx, hk], .refl k⟩
  conflicts := List.prefix_refl _

theorem keeps_record (f : Forest) (c : NameConflict) : f.Keeps (f.record c) where
  order := List.prefix_refl _
  item _ i hi := ⟨i, hi, .refl i⟩
  conflicts := List.prefix_append _ _

theorem keeps_move {child : Text} (hchild : f.has child = true) (parent : Text) :
    f.Keeps (f.move child parent) where
  order := by simp only [map_id_move, List.prefix_rfl]
  item x i hi := by
    have hbare : (f.move child parent).bare? x = some i.bare := by
      rw [bare?_move, bare?_of_find? hi]
    obtain ⟨j, hj, hij⟩ := Option.map_eq_some_iff.mp hbare
    refine ⟨j, hj, .of_bare hij fun hparent => ?_⟩
    rw [← parentId?_of_find? hi] at hparent
    rw [← parentId?_of_find? hj, parentId?_move hchild]
    split
    · rfl
    · exact hparent
  conflicts := by simp only [conflicts_move, List.prefix_rfl]

/-- Each single change goes in the one direction. -/
theorem Change.keeps (hfg : Change S f g) : f.Keeps g := by
  cases hfg with
  | insert name isFile isPlaceholder hid hfresh => exact keeps_insert f _
  | settle name hi hplaceholder => exact keeps_settle hi hplaceholder name
  | record hkind hi hsettled hne => exact keeps_record f _
  | move hchild hparent habove => exact keeps_move hchild _

/-- Any number of changes go in the one direction. -/
theorem Evolves.keeps (hfg : Evolves S f g) : f.Keeps g := by
  induction hfg with
  | refl => exact .refl f
  | tail _ hgh ih => exact ih.trans hgh.keeps

/-! ## Conflicts -/

/-- A conflict says the truth: its item exists and has a settled name, which is the one that was
kept and not the one that was rejected. -/
def NameConflict.Stands (c : NameConflict) (f : Forest) : Prop :=
  ∃ i, f.find? c.node = some i ∧ i.isPlaceholder = false ∧ i.name = c.kept ∧ c.kept ≠ c.rejected

theorem NameConflict.Stands.keeps {c : NameConflict} (hc : c.Stands f) (hfg : f.Keeps g) :
    c.Stands g := by
  obtain ⟨i, hi, hsettled, hname, hne⟩ := hc
  obtain ⟨j, hj, hij⟩ := hfg.item c.node i hi
  exact ⟨j, hj, hij.settled hsettled, (hij.name hsettled).trans hname, hne⟩

/-- A change records a conflict only where it says the truth. -/
theorem Change.stands (hfg : Change S f g) (hf : ∀ c ∈ f.conflicts, c.Stands f) :
    ∀ c ∈ g.conflicts, c.Stands g := by
  have hkept : ∀ c ∈ f.conflicts, c.Stands g := fun c hc => (hf c hc).keeps hfg.keeps
  cases hfg with
  | insert name isFile isPlaceholder hid hfresh => exact hkept
  | settle name hi hplaceholder => exact hkept
  | move hchild hparent habove =>
    rw [conflicts_move]
    exact hkept
  | record hkind hi hsettled hne =>
    intro c hc
    rcases List.mem_append.mp hc with hc | hc
    · exact hkept c hc
    · rw [List.mem_singleton.mp hc]
      exact ⟨_, hi, hsettled, rfl, hne⟩

theorem Evolves.stands (hfg : Evolves S f g) (hf : ∀ c ∈ f.conflicts, c.Stands f) :
    ∀ c ∈ g.conflicts, c.Stands g := by
  induction hfg with
  | refl => exact hf
  | tail _ hgh ih => exact hgh.stands ih

/-! ## Any sequence of operations -/

theorem evolves_afterAll (hf : f.WellFormed) (ops : List Operation) :
    Evolves (scopeOf ops) f (f.afterAll ops) := by
  induction ops generalizing f with
  | nil => exact .refl f
  | cons op ops ih =>
    have hop := evolves_after hf op
    have hops := ih (hop.wellFormed hf)
    have hhead : op.scope.Within (scopeOf (op :: ops)) :=
      ⟨fun _ => List.mem_append_left _, fun _ _ => trivial⟩
    have htail : (scopeOf ops).Within (scopeOf (op :: ops)) :=
      ⟨fun _ => List.mem_append_right _, fun _ h => h⟩
    exact (hop.mono hhead).trans (hops.mono htail)

/-- Whatever is asked of a forest that began empty, whether it fails or not, and whatever is asked
of it afterwards: the items stay, in their order, files stay files and directories stay directories,
settled names stay settled as they are, what is in a directory stays in one, and conflicts are only
added.  So each conflict is about an item with a settled name, which is the one that was kept, and
another one than was rejected. -/
theorem keeps_afterAll_append (earlier later : List Operation) :
    (empty.afterAll earlier).Keeps (empty.afterAll (earlier ++ later)) ∧
      ∀ c ∈ (empty.afterAll earlier).conflicts, c.Stands (empty.afterAll earlier) := by
  have hearlier := evolves_afterAll wellFormed_empty earlier
  have hlater := evolves_afterAll (hearlier.wellFormed wellFormed_empty) later
  refine ⟨?_, hearlier.stands fun c hc => absurd hc (by simp [empty])⟩
  have hrun : empty.afterAll (earlier ++ later) = (empty.afterAll earlier).afterAll later :=
    List.foldl_append
  rw [hrun]
  exact hlater.keeps

end Forest
end Debundle
