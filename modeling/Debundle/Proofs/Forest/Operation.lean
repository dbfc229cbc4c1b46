import Debundle.Forest.Require
import Debundle.Proofs.Forest.Change
import Debundle.Proofs.Journal.Postcondition

/-!
# Growing a forest keeps it a forest

Every operation on a forest is made of single changes, also when it fails on the way and leaves
what it did so far.  So whatever is asked of a forest that began empty, in whatever order, it
stays well formed.

* `Forest.merge_evolves`, `Forest.addParent_evolves`: what a step leaves has evolved from what it
  found.
* `Forest.require_leaves`: a require path claims the name of a file, and then says where it is.
* `Forest.require_evolves`: what a require path leaves has evolved from what it found.
* `Forest.Operation`: something that may be asked of a forest.
* `Forest.wellFormed_afterAll`: the forest after any sequence of operations.
-/

namespace Debundle
namespace Forest

open Debundle.Action

variable (S : Scope) {f : Forest}

/-! ## Single steps -/

@[simp] theorem leaves_say (level : Level) (message : Text) (Q : Except Error Unit → Forest → Prop) :
    (Forest.say level message).Leaves f Q ↔ Q (.ok ()) f := Iff.rfl

/-- Looking up an item changes nothing and gives the item that has the id. -/
theorem get_leaves (id : Text) (Q : Except Error Item → Forest → Prop)
    (hfound : ∀ i, f.find? id = some i → Q (.ok i) f)
    (hmissing : f.find? id = none → Q (.error (.missing id)) f) : (get id).Leaves f Q := by
  unfold get
  rw [leaves_get_bind]
  rcases h : f.find? id with _ | i
  · exact hmissing h
  · exact hfound i h

/-- An item is added where its id is new; otherwise nothing changes. -/
theorem addItem_evolves {id : Text} (name : Text) {isFile : Bool} (isPlaceholder : Bool)
    (horigin : S.ids id ∨ isFile = false ∧ ∃ child, f.has child = true ∧ id = parentIdOf child) :
    (addItem id name isFile isPlaceholder).Leaves f fun r g =>
      Evolves S f g ∧ ∀ i, r = .ok i → g.has id = true := by
  unfold addItem
  rw [leaves_get_bind]
  split
  · exact ⟨.refl f, fun i hi => by cases hi⟩
  · rename_i hid
    split
    · exact ⟨.refl f, fun i hi => by cases hi⟩
    · rename_i hfresh
      simp only [leaves_bind, leaves_set, leaves_pure]
      refine ⟨(Change.insert name isFile isPlaceholder ?_ (by simpa using hfresh) horigin).evolves, ?_⟩
      · simpa using hid
      · intro i _
        rw [has_insert]
        simp

/-- An item is put into the directory that is made for it, or into one where something is; in a
directory where something was or where it was put, there is something. -/
theorem attach_evolves {child parent : Text} (hchild : f.has child = true)
    (hparent : f.has parent = true) (hplace : parent = parentIdOf child ∨ f.IsUsed parent) :
    (attach child parent).Leaves f fun r g =>
      Evolves S f g ∧ (r = .ok true ∨ f.IsUsed parent → g.IsUsed parent) := by
  unfold attach
  rw [leaves_get_bind]
  split
  · rename_i hinside
    exact ⟨.refl f, fun _ => ⟨child, by simpa using hinside⟩⟩
  · split
    · exact ⟨.refl f, fun h => h.resolve_left fun hok => by cases hok⟩
    · rename_i habove
      have hinside : (f.move child parent).parentId? child = some parent := by
        rw [parentId?_move hchild, if_pos rfl]
      exact ⟨(Change.move hchild hparent (by simpa using habove) hplace).evolves,
        fun _ => ⟨child, hinside⟩⟩

theorem ensureParent_evolves {child : Text} (hchild : f.has child = true) (name : Option Text) :
    (ensureParent (parentIdOf child) name).Leaves f fun r g =>
      Evolves S f g ∧ (r = .ok () → g.has (parentIdOf child) = true) := by
  unfold ensureParent
  rw [leaves_get_bind]
  rcases hfind : f.find? (parentIdOf child) with _ | existing
  · rcases name with _ | n <;>
    · refine (addItem_evolves S _ _ (Or.inr ⟨rfl, child, hchild, rfl⟩)).bind ?_ ?_
      · exact fun e g hg => ⟨hg.1, fun h => by cases h⟩
      · exact fun i g hg => ⟨hg.1, fun _ => hg.2 i rfl⟩
  · have hid : existing.id = parentIdOf child := id_of_find? hfind
    have hhas : f.has (parentIdOf child) = true := has_iff.mpr ⟨existing, hfind⟩
    rcases name with _ | n
    · exact ⟨.refl f, fun _ => hhas⟩
    · simp only
      split
      · rename_i hplaceholder
        simp only [leaves_set]
        refine ⟨?_, fun _ => by rw [has_settle, hhas]⟩
        rw [← hid] at hfind ⊢
        exact (Change.settle n hfind hplaceholder).evolves
      · exact ⟨.refl f, fun _ => hhas⟩

/-- The directory that is made for an item exists afterwards, and something is in it. -/
theorem addParent_evolves {child : Text} (hchild : f.has child = true) (name : Option Text) :
    (addParent child name).Leaves f fun r g =>
      Evolves S f g ∧ ∀ p, r = .ok p → g.has p = true ∧ g.IsUsed p := by
  unfold addParent
  refine (ensureParent_evolves S hchild _).bind ?_ ?_
  · intro e g hg
    exact ⟨hg.1, fun p hp => by cases hp⟩
  · intro _ g hg
    have hparent := hg.2 rfl
    refine (attach_evolves S (hg.1.has hchild) hparent (Or.inl rfl)).bind ?_ ?_
    · intro e k hk
      exact ⟨hg.1.trans hk.1, fun p hp => by cases hp⟩
    · intro b k hk
      cases b with
      | false => exact ⟨hg.1.trans hk.1, fun p hp => by cases hp⟩
      | true =>
        refine ⟨hg.1.trans hk.1, fun p hp => ?_⟩
        cases hp
        exact ⟨hk.1.has hparent, hk.2 (Or.inl rfl)⟩

theorem leaves_claimName (i : Item) (name : Text) (kind : ConflictKind)
    (Q : Except Error Bool → Forest → Prop) : (claimName i name kind).Leaves f Q ↔
      if i.isPlaceholder then Q (.ok true) (f.settle i.id name)
      else if i.name = name then Q (.ok true) f
      else Q (.ok false) (f.record ⟨kind, i.id, i.name, name⟩) := by
  unfold claimName
  split
  · rfl
  · by_cases hname : i.name = name
    · simp [hname]
    · rw [if_neg hname, if_pos (by simpa using hname)]
      rfl

theorem claimName_evolves {i : Item} (hi : f.find? i.id = some i) (name : Text)
    {kind : ConflictKind} (hkind : S.kinds kind) :
    (claimName i name kind).Leaves f fun _ g => Evolves S f g := by
  unfold claimName
  split
  · rename_i hplaceholder
    exact (Change.settle name hi hplaceholder).evolves
  · rename_i hsettled
    split
    · rename_i hne
      exact (Change.record hkind hi (by simpa using hsettled) (by simpa using hne)).evolves
    · exact .refl f

theorem leaves_ensureFile {id : Text} (hid : id ≠ []) (name : Text) (isPlaceholder : Bool)
    (Q : Except Error Unit → Forest → Prop) : (ensureFile id name isPlaceholder).Leaves f Q ↔
      Q (.ok ()) (if f.has id then f else f.insert ⟨id, name, true, isPlaceholder, none, []⟩) := by
  have hempty : id.isEmpty = false := by simpa using hid
  unfold ensureFile addFile addItem
  rw [leaves_get_bind]
  cases hhas : f.has id with
  | true => rfl
  | false => simp [hempty, hhas]

theorem ensureFile_evolves {id : Text} (hid : S.ids id) (name : Text) (isPlaceholder : Bool) :
    (ensureFile id name isPlaceholder).Leaves f fun r g =>
      Evolves S f g ∧ (r = .ok () → g.has id = true) := by
  unfold ensureFile
  rw [leaves_get_bind]
  split
  · refine (addItem_evolves S name isPlaceholder (Or.inl hid)).bind ?_ ?_
    · exact fun e g hg => ⟨hg.1, fun h => by cases h⟩
    · exact fun i g hg => ⟨hg.1, fun _ => hg.2 i rfl⟩
  · rename_i hhas
    exact ⟨.refl f, fun _ => by simpa using hhas⟩

/-! ## Merging -/

theorem find?_of_parent? {x : Text} {p : Item} (h : f.parent? x = some p) :
    f.find? p.id = some p := by
  obtain ⟨y, -, hp⟩ := Option.bind_eq_some_iff.mp h
  rw [id_of_find? hp, hp]

theorem parentId?_of_parent? {x : Text} {p : Item} (h : f.parent? x = some p) :
    f.parentId? x = some p.id := by
  obtain ⟨y, hy, hp⟩ := Option.bind_eq_some_iff.mp h
  rw [hy, id_of_find? hp]

theorem isUsed_of_parent? {x : Text} {p : Item} (h : f.parent? x = some p) : f.IsUsed p.id :=
  ⟨x, parentId?_of_parent? h⟩

theorem adopt_evolves {survivor : Text} (children : List Text) (hsurvivor : f.has survivor = true)
    (hused : f.IsUsed survivor) (hchildren : ∀ c ∈ children, f.has c = true) :
    (adopt survivor children).Leaves f fun _ g => Evolves S f g := by
  induction children generalizing f with
  | nil => exact .refl f
  | cons child rest ih =>
    have hrest : ∀ c ∈ rest, f.has c = true := fun c hc => hchildren c (List.mem_cons_of_mem _ hc)
    unfold adopt
    rw [leaves_get_bind]
    split
    · refine (attach_evolves S (hchildren child List.mem_cons_self) hsurvivor
        (Or.inr hused)).bind ?_ ?_
      · exact fun e g hg => hg.1
      · rintro _ g ⟨hg, hplace⟩
        exact (ih (hg.has hsurvivor) (hplace (Or.inr hused)) fun c hc =>
          hg.has (hrest c hc)).mono fun r k hk => hg.trans hk
    · exact ih hsurvivor hused hrest

theorem adoptChildren_evolves (hf : f.WellFormed) {survivor discarded : Text}
    (hsurvivor : f.has survivor = true) (hused : f.IsUsed survivor) :
    (adoptChildren survivor discarded).Leaves f fun _ g => Evolves S f g :=
  adopt_evolves S _ hsurvivor hused fun _ hc => has_of_parentId? (hf.mem_childrenOf_iff.mp hc)

/-- Of two candidates one is the winner and the other one is not. -/
theorem prefer_cases {α : Type} (above : α → α → Bool) (a b : α) :
    ∃ s d, prefer above a b = (s, d) ∧ ((s = a ∧ d = b) ∨ (s = b ∧ d = a)) := by
  unfold prefer
  split
  · exact ⟨b, a, rfl, Or.inr ⟨rfl, rfl⟩⟩
  · exact ⟨a, b, rfl, Or.inl ⟨rfl, rfl⟩⟩

/-- Whether two directories have settled names that are different. -/
def clash (p q : Item) : Bool := !p.isPlaceholder && !q.isPlaceholder && p.name != q.name

/-- Merging two directories records their conflict, if there is one, and then moves children. -/
theorem mergeDirectories_leaves {p q s d : Item}
    (hsd : prefer (fun a b => (mergeRank f a).above (mergeRank f b)) p q = (s, d))
    (Q : Except Error Unit → Forest → Prop) :
    (mergeDirectories p q).Leaves f Q ↔ (adoptChildren s.id d.id).Leaves
      (if clash p q then f.record ⟨.parentDirectory, s.id, s.name, d.name⟩ else f) Q := by
  unfold mergeDirectories
  rw [leaves_get_bind]
  simp only [hsd]
  rw [← clash]
  split <;> rfl

theorem mergeDirectories_evolves (hS : S.kinds .parentDirectory) (hf : f.WellFormed)
    {first second : Text} {p q : Item} (hp : f.parent? first = some p)
    (hq : f.parent? second = some q) :
    (mergeDirectories p q).Leaves f fun _ g => Evolves S f g := by
  obtain ⟨s, d, hsd, hcases⟩ :=
    prefer_cases (fun a b => (mergeRank f a).above (mergeRank f b)) p q
  rw [mergeDirectories_leaves hsd]
  obtain ⟨hs, hused⟩ : f.find? s.id = some s ∧ f.IsUsed s.id := by
    rcases hcases with ⟨rfl, -⟩ | ⟨rfl, -⟩
    · exact ⟨find?_of_parent? hp, isUsed_of_parent? hp⟩
    · exact ⟨find?_of_parent? hq, isUsed_of_parent? hq⟩
  have hadopt : ∀ g, Evolves S f g → g.IsUsed s.id →
      (adoptChildren s.id d.id).Leaves g fun _ h => Evolves S f h := by
    intro g hg hused
    exact (adoptChildren_evolves S (hg.wellFormed hf) (hg.has (has_iff.mpr ⟨s, hs⟩)) hused).mono
      fun r h hh => hg.trans hh
  split
  · rename_i hclash
    simp only [clash, Bool.and_eq_true, Bool.not_eq_true', bne_iff_ne] at hclash
    obtain ⟨⟨hsettledp, hsettledq⟩, hne⟩ := hclash
    have hsettled : s.isPlaceholder = false ∧ s.name ≠ d.name := by
      rcases hcases with ⟨rfl, rfl⟩ | ⟨rfl, rfl⟩
      · exact ⟨hsettledp, hne⟩
      · exact ⟨hsettledq, hne.symm⟩
    exact hadopt _ (Change.record hS hs hsettled.1 hsettled.2).evolves hused
  · exact hadopt f (.refl f) hused

theorem mergeUp_evolves (hS : S.kinds .parentDirectory) (fuel : Nat) {first second : Text}
    (hf : f.WellFormed) (hfirst : f.has first = true) (hsecond : f.has second = true) :
    (mergeUp fuel first second).Leaves f fun r g =>
      Evolves S f g ∧ ∀ x y, r = .ok (x, y) → g.has x = true ∧ g.has y = true := by
  induction fuel generalizing f first second with
  | zero =>
    refine ⟨.refl f, fun x y hxy => ?_⟩
    cases hxy
    exact ⟨hfirst, hsecond⟩
  | succ fuel ih =>
    have hstop : Evolves S f f ∧ ∀ x y, (Except.ok (first, second) : Except Error _) = .ok (x, y) →
        f.has x = true ∧ f.has y = true := by
      refine ⟨.refl f, fun x y hxy => ?_⟩
      cases hxy
      exact ⟨hfirst, hsecond⟩
    unfold mergeUp
    rw [leaves_get_bind]
    rcases hp : f.parent? first with _ | p
    · exact hstop
    · rcases hq : f.parent? second with _ | q
      · exact hstop
      · simp only
        split
        · exact hstop
        · have hpf := find?_of_parent? hp
          have hqf := find?_of_parent? hq
          refine (mergeDirectories_evolves S hS hf hp hq).bind ?_ ?_
          · exact fun e g hg => ⟨hg, fun x y hxy => by cases hxy⟩
          · intro _ g hg
            refine (ih (hg.wellFormed hf) (hg.has (has_iff.mpr ⟨p, hpf⟩))
              (hg.has (has_iff.mpr ⟨q, hqf⟩))).mono fun r k hk => ?_
            exact ⟨hg.trans hk.1, hk.2⟩

theorem joinRoots_evolves (hf : f.WellFormed) {first second : Text} (hfirst : f.has first = true)
    (hsecond : f.has second = true) :
    (joinRoots first second).Leaves f fun _ g => Evolves S f g := by
  unfold joinRoots
  rw [leaves_get_bind]
  rcases ha : f.parentId? first with _ | a <;> rcases hb : f.parentId? second with _ | b
  · refine (addParent_evolves S hsecond none).bind ?_ ?_
    · exact fun e g hg => hg.1
    · intro shared g hg
      obtain ⟨hshared, hused⟩ := hg.2 shared rfl
      refine (attach_evolves S (hg.1.has hfirst) hshared (Or.inr hused)).bind ?_ ?_
      · exact fun e k hk => hg.1.trans hk.1
      · exact fun _ k hk => hg.1.trans hk.1
  · refine (attach_evolves S hfirst (hf.has_parent hb) (Or.inr ⟨second, hb⟩)).bind ?_ ?_
    · exact fun e g hg => hg.1
    · exact fun _ g hg => hg.1
  · refine (attach_evolves S hsecond (hf.has_parent ha) (Or.inr ⟨first, ha⟩)).bind ?_ ?_
    · exact fun e g hg => hg.1
    · exact fun _ g hg => hg.1
  · exact .refl f

theorem merge_evolves (hS : S.kinds .parentDirectory) (hf : f.WellFormed) {first second : Text}
    (hfirst : f.has first = true) (hsecond : f.has second = true) :
    (merge first second).Leaves f fun _ g => Evolves S f g := by
  unfold merge
  rw [leaves_get_bind]
  refine (mergeUp_evolves S hS f.items.length hf hfirst hsecond).bind ?_ ?_
  · exact fun e g hg => hg.1
  · rintro ⟨x, y⟩ g ⟨hg, hxy⟩
    obtain ⟨hx, hy⟩ := hxy x y rfl
    exact (joinRoots_evolves S (hg.wellFormed hf) hx hy).mono fun r k hk => hg.trans hk

/-! ## Going up -/

theorem nameUpwards_evolves (hS : S.kinds .directory) (components : List Text) {branch : Text}
    (hf : f.WellFormed) (hbranch : f.has branch = true) :
    (nameUpwards branch components).Leaves f fun r g =>
      Evolves S f g ∧ ∀ b left, r = .ok (b, left) → g.has b = true := by
  induction components generalizing f branch with
  | nil =>
    refine ⟨.refl f, fun b left h => ?_⟩
    cases h
    exact hbranch
  | cons component rest ih =>
    unfold nameUpwards
    split
    · refine ⟨.refl f, fun b left h => ?_⟩
      cases h
      exact hbranch
    · rw [leaves_get_bind]
      rcases hp : f.parent? branch with _ | above
      · refine (addParent_evolves S hbranch _).bind ?_ ?_
        · exact fun e g hg => ⟨hg.1, fun b left h => by cases h⟩
        · intro above g hg
          refine (ih (hg.1.wellFormed hf) (hg.2 above rfl).1).mono fun r k hk => ?_
          exact ⟨hg.1.trans hk.1, hk.2⟩
      · have habove := find?_of_parent? hp
        refine (claimName_evolves S habove component hS).bind ?_ ?_
        · exact fun e g hg => ⟨hg, fun b left h => by cases h⟩
        · intro claimed g hg
          cases claimed with
          | false =>
            refine ⟨hg, fun b left h => ?_⟩
            cases h
            exact hg.has hbranch
          | true =>
            refine (ih (hg.wellFormed hf) (hg.has (has_iff.mpr ⟨above, habove⟩))).mono
              fun r k hk => ?_
            exact ⟨hg.trans hk.1, hk.2⟩

theorem climb_evolves (path : Text) (components : List Text) {branch : Text} (hf : f.WellFormed)
    (hbranch : f.has branch = true) :
    (climb path branch components).Leaves f fun r g =>
      Evolves S f g ∧ ∀ b, r = .ok b → g.has b = true := by
  induction components generalizing f branch with
  | nil =>
    refine ⟨.refl f, fun b h => ?_⟩
    cases h
    exact hbranch
  | cons component rest ih =>
    unfold climb
    split
    · exact ih hf hbranch
    · split
      · exact ⟨.refl f, fun b h => by cases h⟩
      · rw [leaves_get_bind]
        rcases hp : f.parentId? branch with _ | above
        · refine (addParent_evolves S hbranch none).bind ?_ ?_
          · exact fun e g hg => ⟨hg.1, fun b h => by cases h⟩
          · intro above g hg
            refine (ih (hg.1.wellFormed hf) (hg.2 above rfl).1).mono fun r k hk => ?_
            exact ⟨hg.1.trans hk.1, hk.2⟩
        · exact ih hf (hf.has_parent hp)

/-! ## One require path -/

/-- The components of a require path. -/
def componentsOf (path : Text) : List Text := Text.split Path.slash (Path.normalKeepingSlash path)

/-- The name that a require path claims for the file it leads to. -/
def baseOf (path : Text) : Text := (componentsOf path).getLastD []

/-- A path that can lead to a file, and a file that it can lead to. -/
def CanLead (target path : Text) : Prop :=
  path ≠ [] ∧ Text.endsWith path "/" = false ∧ target ≠ []

instance (target path : Text) : Decidable (CanLead target path) :=
  inferInstanceAs (Decidable (_ ∧ _))

/-- The forest when a file has been made sure of and a name has been claimed for it. -/
def named (f : Forest) (target name : Text) : Forest :=
  match f.find? target with
  | none => f.insert ⟨target, name, true, false, none, []⟩
  | some i =>
    if i.isPlaceholder then f.settle target name
    else if i.name = name then f
    else f.record ⟨.file, target, i.name, name⟩

/-- What a require path says about directories: their names above the file it leads to, and which of
them is above the file that asks. -/
def place (current target path : Text) : Step Unit := do
  let (branch, left) ← nameUpwards target (componentsOf path).dropLast.reverse
  if left.isEmpty && !Text.startsWith path "." then return ()
  else
    ensureFile current current true
    let own ← climb path current left.reverse
    merge branch own

/-- A require path that cannot lead to a file is refused at once: for the path if that is at fault,
and else for the file. -/
theorem require_refused {target path : Text} (h : ¬CanLead target path) (current : Text) :
    (require current target path).Leaves f fun r g =>
      r = .error (if path = [] ∨ Text.endsWith path "/" = true then .badPath path else .badTarget) ∧
        g = f := by
  unfold require
  by_cases hpath : path = [] ∨ Text.endsWith path "/" = true
  · rw [if_pos (by simpa using hpath), if_pos hpath]
    exact ⟨rfl, rfl⟩
  · rw [if_neg (by simpa using hpath), if_neg hpath]
    have htarget : target = [] := by
      by_contra htarget
      obtain ⟨hne, hends⟩ := not_or.mp hpath
      exact h ⟨hne, Bool.not_eq_true _ ▸ hends, htarget⟩
    rw [if_pos (by simpa using htarget)]
    exact ⟨rfl, rfl⟩

/-- A require path that cannot lead to a file changes nothing. -/
theorem require_leaves_of_not {target path : Text} (h : ¬CanLead target path) (current : Text) :
    (require current target path).Leaves f fun _ g => g = f :=
  (require_refused h current).2

/-- Taking in a require path is claiming the name of the file, and then placing it. -/
theorem require_leaves {target path : Text} (h : CanLead target path) (current : Text)
    (Q : Except Error Unit → Forest → Prop) : (require current target path).Leaves f Q ↔
      (place current target path).Leaves (f.named target (baseOf path)) Q := by
  obtain ⟨hpath, hends, htarget⟩ := h
  have hbase : (Text.split Path.slash (Path.normalKeepingSlash path)).getLastD [] = baseOf path := rfl
  unfold require get
  rw [if_neg (by simp [hpath, hends]), if_neg (by simp [htarget]), leaves_bind, leaves_say]
  simp only [hbase]
  rw [leaves_bind, leaves_ensureFile htarget]
  simp only [leaves_bind, leaves_get]
  unfold named
  cases hfile : f.find? target with
  | none =>
    have hnew : (f.insert ⟨target, baseOf path, true, false, none, []⟩).find? target =
        some ⟨target, baseOf path, true, false, none, []⟩ := by
      rw [find?_insert, hfile, Option.none_or, if_pos rfl]
    rw [if_neg (by simp [find?_eq_none_iff.mp hfile]), hnew]
    simp only [leaves_pure, leaves_claimName]
    rfl
  | some i =>
    obtain rfl := id_of_find? hfile
    rw [if_pos (has_iff.mpr ⟨i, hfile⟩), hfile]
    simp only [leaves_pure, leaves_claimName]
    by_cases hplaceholder : i.isPlaceholder = true
    · simp only [if_pos hplaceholder]
      rfl
    · simp only [if_neg hplaceholder]
      by_cases hname : i.name = baseOf path
      · simp only [if_pos hname]
        rfl
      · simp only [if_neg hname]
        rfl

theorem named_evolves (hS : S.kinds .file) {target : Text} (htarget : target ≠ [])
    (hid : S.ids target) (name : Text) :
    Evolves S f (f.named target name) ∧ (f.named target name).has target = true := by
  unfold named
  cases hfile : f.find? target with
  | none =>
    have hfresh := find?_eq_none_iff.mp hfile
    exact ⟨(Change.insert name true false htarget hfresh (Or.inl hid)).evolves, by simp [has_insert]⟩
  | some i =>
    have hhas : f.has target = true := has_iff.mpr ⟨i, hfile⟩
    obtain rfl := id_of_find? hfile
    simp only
    split
    · rename_i hplaceholder
      exact ⟨(Change.settle name hfile hplaceholder).evolves, by rw [has_settle, hhas]⟩
    · rename_i hsettled
      split
      · exact ⟨.refl f, hhas⟩
      · rename_i hname
        exact ⟨(Change.record hS hfile (by simpa using hsettled) hname).evolves, hhas⟩

theorem place_evolves (hdirectory : S.kinds .directory) (hparent : S.kinds .parentDirectory)
    (hf : f.WellFormed) {current target : Text} (hcurrent : S.ids current)
    (htarget : f.has target = true) (path : Text) :
    (place current target path).Leaves f fun _ g => Evolves S f g := by
  unfold place
  refine (nameUpwards_evolves S hdirectory _ hf htarget).bind (fun e g hg => hg.1) ?_
  rintro ⟨branch, left⟩ g ⟨hg, hbranch⟩
  simp only
  split
  · exact hg
  · refine (ensureFile_evolves S hcurrent current true).bind (fun e k hk => hg.trans hk.1) ?_
    intro _ k hk
    have hfk := hg.trans hk.1
    refine (climb_evolves S path left.reverse (hfk.wellFormed hf) (hk.2 rfl)).bind
      (fun e m hm => hfk.trans hm.1) ?_
    intro own m hm
    have hfm := hfk.trans hm.1
    exact (merge_evolves S hparent (hfm.wellFormed hf) (hm.1.has (hk.1.has (hbranch _ _ rfl)))
      (hm.2 own rfl)).mono fun r n hn => hfm.trans hn

theorem require_evolves (hS : ∀ kind, S.kinds kind) (hf : f.WellFormed) {current target : Text}
    (hcurrent : S.ids current) (htarget : S.ids target) (path : Text) :
    (require current target path).Leaves f fun _ g => Evolves S f g := by
  by_cases hlead : CanLead target path
  · rw [require_leaves hlead]
    obtain ⟨hnamed, hhas⟩ := named_evolves S (f := f) (hS _) hlead.2.2 htarget (baseOf path)
    exact (place_evolves S (hS _) (hS _) (hnamed.wellFormed hf) hcurrent hhas path).mono
      fun r g hg => hnamed.trans hg
  · refine (require_leaves_of_not hlead current).mono fun r g hg => ?_
    rw [hg]
    exact .refl f

/-! ## Any sequence of operations -/

/-- Something that may be asked of a forest.  Directories are made above, and branches are merged
at, items that exist. -/
inductive Operation where
  /-- A new file. -/
  | addFile (id name : Text) (isPlaceholder : Bool)
  /-- A new directory. -/
  | addDirectory (id name : Text) (isPlaceholder : Bool)
  /-- The directory that is made for an item. -/
  | addParent (child : Text) (name : Option Text)
  /-- A require path. -/
  | require (current target path : Text)
  /-- One directory for two items. -/
  | merge (first second : Text)

/-- The ids of the items that an operation may add, those of directories made for items apart. -/
def Operation.ids : Operation → List Text
  | .addFile id _ _ => [id]
  | .addDirectory id _ _ => [id]
  | .addParent _ _ => []
  | .require current target _ => [current, target]
  | .merge _ _ => []

/-- The kinds of conflict that an operation may find. -/
def Operation.kinds : Operation → ConflictKind → Prop
  | .addFile _ _ _ => fun _ => False
  | .addDirectory _ _ _ => fun _ => False
  | .addParent _ _ => fun _ => False
  | .require _ _ _ => fun _ => True
  | .merge _ _ => (· = .parentDirectory)

/-- What may come up in an operation. -/
def Operation.scope (op : Operation) : Scope := ⟨(· ∈ op.ids), op.kinds⟩

/-- What may come up in some operations. -/
def scopeOf (ops : List Operation) : Scope := ⟨(· ∈ ops.flatMap Operation.ids), fun _ => True⟩

/-- What is done when an operation is asked for. -/
def Operation.step : Operation → Step Unit
  | .addFile id name isPlaceholder => do
    let _ ← Forest.addFile id name isPlaceholder
  | .addDirectory id name isPlaceholder => do
    let _ ← Forest.addDirectory id name isPlaceholder
  | .addParent child name => do
    let item ← get child
    let _ ← Forest.addParent item.id name
  | .require current target path => Forest.require current target path
  | .merge first second => do
    let a ← get first
    let b ← get second
    Forest.merge a.id b.id

/-- The forest after one operation, whether it failed or not. -/
def after (f : Forest) (op : Operation) : Forest := (op.step.run f).state

/-- The forest after a sequence of operations, each of which may fail. -/
def afterAll (f : Forest) (ops : List Operation) : Forest := ops.foldl after f

theorem has_id_of_find? {x : Text} {i : Item} (h : f.find? x = some i) : f.has i.id = true := by
  rw [id_of_find? h]
  exact has_iff.mpr ⟨i, h⟩

/-- One operation is made of single changes, also when it fails on the way. -/
theorem evolves_after (hf : f.WellFormed) (op : Operation) :
    Evolves op.scope f (f.after op) := by
  change op.step.Leaves f fun _ g => Evolves op.scope f g
  cases op with
  | addFile id name isPlaceholder =>
    have hid : id ∈ (Operation.addFile id name isPlaceholder).ids := List.mem_singleton_self id
    exact (addItem_evolves _ name isPlaceholder (Or.inl hid)).bind (fun e g hg => hg.1)
      fun i g hg => hg.1
  | addDirectory id name isPlaceholder =>
    have hid : id ∈ (Operation.addDirectory id name isPlaceholder).ids := List.mem_singleton_self id
    exact (addItem_evolves _ name isPlaceholder (Or.inl hid)).bind (fun e g hg => hg.1)
      fun i g hg => hg.1
  | addParent child name =>
    rw [Operation.step, leaves_bind]
    refine get_leaves child _ (fun i hi => ?_) fun _ => .refl f
    exact (addParent_evolves _ (has_id_of_find? hi) name).bind (fun e g hg => hg.1)
      fun p g hg => hg.1
  | require current target path =>
    have hcurrent : current ∈ (Operation.require current target path).ids := by simp [Operation.ids]
    have htarget : target ∈ (Operation.require current target path).ids := by simp [Operation.ids]
    exact require_evolves _ (fun _ => trivial) hf hcurrent htarget path
  | merge first second =>
    rw [Operation.step, leaves_bind]
    refine get_leaves first _ (fun a ha => ?_) fun _ => .refl f
    simp only [leaves_bind]
    refine get_leaves second _ (fun b hb => ?_) fun _ => .refl f
    exact merge_evolves _ rfl hf (has_id_of_find? ha) (has_id_of_find? hb)

theorem wellFormed_afterAll (hf : f.WellFormed) (ops : List Operation) :
    (f.afterAll ops).WellFormed := by
  induction ops generalizing f with
  | nil => exact hf
  | cons op ops ih => exact ih ((evolves_after hf op).wellFormed hf)

/-- Whatever is asked of a forest that began empty, in whatever order and whether it fails or not,
leaves a forest: ids are not empty and name one item each, links lead to items, an item is listed,
once, by exactly the directory that it is in, and going up from any item ends at a root. -/
theorem wellFormed_afterAll_empty (ops : List Operation) : (empty.afterAll ops).WellFormed :=
  wellFormed_afterAll wellFormed_empty ops

end Forest
end Debundle
