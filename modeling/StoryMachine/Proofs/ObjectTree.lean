import Mathlib.Data.List.Perm.Subperm
import StoryMachine.Proofs.ObjectLinks

/-!
# The tree of objects

`Consistent` says that the links of the first `count` objects make lists of children:
from an object's child along the siblings one comes, once each, by exactly the
objects whose parent it is.  Nothing is said about the siblings of objects without a
parent, and an object may be its own ancestor.

Taking an object out of such a tree and putting it in somewhere are treated in two
steps.  On the links alone they are `detach`, which changes the one link that led to
the object (`PointsAt`), and `attach`; what they do to the lists of children needs no
memory.  **Both operations on memory are then these two**: the walk along the
siblings finds the right link within its bound (`elder_eq_ok`), and each link that is
set is an update.
-/

namespace StoryMachine

open ObjectTable (Counted)

namespace Links

variable (links : Links)

/-- A way along siblings: it starts at `first`, comes by the objects in order, and then
arrives at `last`. -/
def Path : (first : Word) → List Word → (last : Word) → Prop
  | first, [], last => first = last
  | first, object :: rest, last =>
    first = object ∧ object ≠ 0 ∧ Path (links object .sibling) rest last

/-- That the children of an object are those of a list, in order. -/
structure Children (count : Nat) (parent : Word) (children : List Word) : Prop where
  path : links.Path (links parent .child) children 0
  nodup : children.Nodup
  mem_iff : ∀ object, object ∈ children ↔ Counted count object ∧ links object .parent = parent

/-- That the links of the first `count` objects lead to one of them, or nowhere. -/
def Bounded (count : Nat) : Prop :=
  ∀ object, Counted count object → ∀ link, (links object link).toNat ≤ count

/-- That the first `count` objects form a tree. -/
structure Consistent (count : Nat) : Prop where
  bounded : links.Bounded count
  children : ∀ parent, Counted count parent → ∃ children, links.Children count parent children

variable {links} {later : Links} {count : Nat} {first middle last object parent other : Word}
  {before after children : List Word}

/-- A way along two parts goes along one and then the other. -/
theorem path_append :
    links.Path first (before ++ after) last ↔
      ∃ middle, links.Path first before middle ∧ links.Path middle after last := by
  induction before generalizing first with
  | nil =>
      constructor
      · intro h
        exact ⟨first, rfl, h⟩
      · rintro ⟨middle, rfl, h⟩
        exact h
  | cons head rest ih =>
      simp only [List.cons_append, Path, ih]
      constructor
      · rintro ⟨hfirst, hne, middle, hrest, hafter⟩
        exact ⟨middle, ⟨hfirst, hne, hrest⟩, hafter⟩
      · rintro ⟨middle, ⟨hfirst, hne, hrest⟩, hafter⟩
        exact ⟨hfirst, hne, middle, hrest, hafter⟩

/-- A way is there as long as the siblings along it are. -/
theorem Path.congr (h : links.Path first children last)
    (hsame : ∀ object ∈ children, later object .sibling = links object .sibling) :
    later.Path first children last := by
  induction children generalizing first with
  | nil => exact h
  | cons head rest ih =>
      obtain ⟨hfirst, hne, hrest⟩ := h
      refine ⟨hfirst, hne, ?_⟩
      rw [hsame head List.mem_cons_self]
      exact ih hrest fun object hobject => hsame object (List.mem_cons_of_mem head hobject)

/-- The children of a parent are the same by links that agree on them. -/
theorem Children.congr (h : links.Children count parent children)
    (hchild : later parent .child = links parent .child)
    (hsibling : ∀ object ∈ children, later object .sibling = links object .sibling)
    (hparent : ∀ object, later object .parent = parent ↔ links object .parent = parent) :
    later.Children count parent children := by
  refine ⟨?_, h.nodup, fun object => ?_⟩
  · rw [hchild]
    exact h.path.congr hsibling
  · rw [h.mem_iff, hparent]

/-! ## Taking an object out -/

/-- The link that leads to an object among the children of its parent: the parent's own if no
child comes before it, the last one's if some do. -/
inductive PointsAt (links : Links) (parent object : Word) : List Word → Word → Link → Prop where
  | first (h : links parent .child = object) : PointsAt links parent object [] parent .child
  | elder {before : List Word} {elder : Word} (hpath : links.Path (links parent .child) before elder)
      (h : links elder .sibling = object) :
      PointsAt links parent object (before ++ [elder]) elder .sibling

/-- An object taken out, given the link that led to it. -/
def detach (links : Links) (place : Word) (link : Link) (object : Word) : Links :=
  ((links.set place link (links object .sibling)).set object .parent 0).set object .sibling 0

/-- An object on the way is pointed at by the link before it. -/
theorem pointsAt_of_path (h : links.Path (links parent .child) (before ++ object :: after) last) :
    ∃ place link, PointsAt links parent object before place link := by
  obtain ⟨middle, hbefore, rfl, -, -⟩ := path_append.mp h
  rcases List.eq_nil_or_concat before with rfl | ⟨init, elder, rfl⟩
  · exact ⟨parent, .child, .first hbefore⟩
  · rw [List.concat_eq_append] at hbefore ⊢
    obtain ⟨_, hinit, rfl, -, hlast⟩ := path_append.mp hbefore
    exact ⟨_, .sibling, .elder hinit hlast⟩

section Detach

variable {place : Word} {link : Link}

/-- No parent link leads to an object among children. -/
theorem PointsAt.link_ne_parent (h : PointsAt links parent object before place link) :
    link ≠ .parent := by
  cases h <;> nofun

/-- An object that is taken out has no parent. -/
theorem detach_parent_self : links.detach place link object object .parent = 0 := by
  rw [detach, set_of_ne_link _ _ (by nofun), set_self]

/-- An object that is taken out has no sibling. -/
theorem detach_sibling_self : links.detach place link object object .sibling = 0 := by
  rw [detach, set_self]

/-- The parents of others are left. -/
theorem detach_parent (hlink : link ≠ .parent) (hne : other ≠ object) :
    links.detach place link object other .parent = links other .parent := by
  rw [detach, set_of_ne_object _ _ hne, set_of_ne_object _ _ hne, set_of_ne_link _ _ hlink.symm]

/-- The siblings of others are left, but for the one that pointed at the object. -/
theorem detach_sibling (hne : other ≠ object) (hplace : link = .sibling → other ≠ place) :
    links.detach place link object other .sibling = links other .sibling := by
  rw [detach, set_of_ne_object _ _ hne, set_of_ne_object _ _ hne, set]
  exact if_neg fun hsame => hplace hsame.2.symm hsame.1

/-- The children of others are left, but for the parent that pointed at the object. -/
theorem detach_child (hplace : link = .child → other ≠ place) :
    links.detach place link object other .child = links other .child := by
  rw [detach, set_of_ne_link _ _ (by nofun), set_of_ne_link _ _ (by nofun), set]
  exact if_neg fun hsame => hplace hsame.2.symm hsame.1

/-- The link that led to the object leads to its sibling. -/
theorem detach_place (hne : link = .sibling → place ≠ object) (hlink : link ≠ .parent) :
    links.detach place link object place link = links object .sibling := by
  cases link with
  | parent => exact absurd rfl hlink
  | child => rw [detach, set_of_ne_link _ _ (by nofun), set_of_ne_link _ _ (by nofun), set_self]
  | sibling =>
      rw [detach, set_of_ne_object _ _ (hne rfl), set_of_ne_object _ _ (hne rfl), set_self]

/-- The way to the object goes on behind it. -/
theorem PointsAt.path_detach (h : PointsAt links parent object before place link)
    (hafter : links.Path (links object .sibling) after 0)
    (hnodup : (before ++ object :: after).Nodup) (hne : ∀ other ∈ before, other ≠ 0) :
    (links.detach place link object).Path (links.detach place link object parent .child)
      (before ++ after) 0 := by
  cases h with
  | first =>
      rw [detach_place (by nofun) (by nofun)]
      refine hafter.congr fun other hother => detach_sibling ?_ (by nofun)
      rintro rfl
      exact (List.nodup_cons.mp hnodup).1 hother
  | @elder before _ hpath =>
      rw [detach_child (by nofun), List.append_assoc]
      simp only [List.append_assoc, List.cons_append, List.nil_append] at hnodup
      obtain ⟨-, hnodup', hdisjoint⟩ := List.nodup_append.mp hnodup
      obtain ⟨hplace, hrest⟩ := List.nodup_cons.mp hnodup'
      obtain ⟨hobject, -⟩ := List.nodup_cons.mp hrest
      have hplaceNe : place ≠ object := fun heq => hplace (heq ▸ List.mem_cons_self)
      have hfront : ∀ other ∈ before,
          links.detach place .sibling object other .sibling = links other .sibling := by
        intro other hother
        refine detach_sibling (fun heq => ?_) fun _ heq => ?_
        · exact hdisjoint other hother object (by simp) heq
        · exact hdisjoint other hother place (by simp) heq
      have hback : ∀ other ∈ after,
          links.detach place .sibling object other .sibling = links other .sibling := by
        intro other hother
        refine detach_sibling (fun heq => ?_) fun _ heq => ?_
        · exact hobject (heq ▸ hother)
        · exact hplace (heq ▸ List.mem_cons_of_mem _ hother)
      refine path_append.mpr ⟨place, hpath.congr hfront, rfl, hne place (by simp), ?_⟩
      rw [detach_place (fun _ => hplaceNe) (by nofun)]
      exact hafter.congr hback

variable (hpoints : PointsAt links parent object before place link)
  (hchildren : links.Children count parent (before ++ object :: after))
include hpoints hchildren

/-- The parent loses the object. -/
theorem Children.detach_parent (hparent : parent ≠ 0) :
    (links.detach place link object).Children count parent (before ++ after) := by
  obtain ⟨-, -, -, -, hafter⟩ := path_append.mp hchildren.path
  have hmem : ∀ other, other ∈ before ++ after ↔
      other ≠ object ∧ other ∈ before ++ object :: after := by
    have hnodup := hchildren.nodup
    grind
  refine ⟨hpoints.path_detach hafter hchildren.nodup ?_, ?_, fun other => ?_⟩
  · intro other hother
    exact ((hchildren.mem_iff other).mp (List.mem_append_left _ hother)).1.1
  · exact hchildren.nodup.sublist (by simp)
  · rw [hmem, hchildren.mem_iff]
    by_cases hother : other = object
    · subst hother
      rw [detach_parent_self]
      simp [hparent.symm]
    · rw [Links.detach_parent hpoints.link_ne_parent hother]
      simp [hother]

/-- All others keep their children. -/
theorem Children.detach_other {others : List Word} (hother : other ≠ 0) (hne : other ≠ parent)
    (h : links.Children count other others) :
    (links.detach place link object).Children count other others := by
  have hobject : links object .parent = parent :=
    ((hchildren.mem_iff object).mp (by simp)).2
  have hplace : link = .sibling → links place .parent = parent := by
    rintro rfl
    cases hpoints with
    | elder => exact ((hchildren.mem_iff place).mp (by simp)).2
  have hchild : link = .child → other ≠ place := by
    rintro rfl
    cases hpoints with
    | first => exact hne
  refine h.congr (detach_child hchild) (fun member hmember => ?_) fun member => ?_
  · have hmember := ((h.mem_iff member).mp hmember).2
    refine detach_sibling (fun heq => ?_) fun hlink heq => ?_
    · exact hne (hmember.symm.trans (heq ▸ hobject))
    · exact hne (hmember.symm.trans (heq ▸ hplace hlink))
  · by_cases hmember : member = object
    · subst hmember
      rw [detach_parent_self, hobject]
      exact iff_of_false hother.symm hne.symm
    · rw [Links.detach_parent hpoints.link_ne_parent hmember]

end Detach

/-- One way leads out of the tree from each object. -/
theorem Path.unique {others : List Word} (h : links.Path first children 0)
    (hothers : links.Path first others 0) : children = others := by
  induction children generalizing first others with
  | nil =>
      cases others with
      | nil => rfl
      | cons head rest => exact absurd (hothers.1.symm.trans h) hothers.2.1
  | cons head rest ih =>
      obtain ⟨rfl, hne, hrest⟩ := h
      cases others with
      | nil => exact absurd hothers hne
      | cons head rest' =>
          obtain ⟨rfl, -, hrest'⟩ := hothers
          rw [ih hrest hrest']

/-- A link that leads to a counted object keeps the links bounded. -/
theorem Bounded.set {value : Word} {link : Link} (h : links.Bounded count)
    (hvalue : value.toNat ≤ count) : (links.set object link value).Bounded count := by
  intro other hother otherLink
  unfold Links.set
  split
  · exact hvalue
  · exact h other hother otherLink

/-- What becomes of a tree when an object is taken out: its parent loses it, and all others
keep their children. -/
structure Removed (links later : Links) (count : Nat) (object : Word) : Prop where
  consistent : later.Consistent count
  parent_eq : later object .parent = 0
  sibling_eq : links object .parent ≠ 0 → later object .sibling = 0
  of_parent : ∀ children, links object .parent ≠ 0 →
    links.Children count (links object .parent) children →
    later.Children count (links object .parent) (children.erase object)
  of_other : ∀ other children, Counted count other → other ≠ links object .parent →
    links.Children count other children → later.Children count other children

/-- An object without a parent is out already. -/
theorem Consistent.removed_root (h : links.Consistent count) (hroot : links object .parent = 0) :
    links.Removed links count object where
  consistent := h
  parent_eq := hroot
  sibling_eq := fun hne => absurd hroot hne
  of_parent := fun _ hne => absurd hroot hne
  of_other := fun _ _ _ _ hchildren => hchildren

/-- **A consistent tree stays one when an object is taken out.** -/
theorem Consistent.removed_detach {place : Word} {link : Link} (h : links.Consistent count)
    (hobject : Counted count object) (hparent : links object .parent ≠ 0)
    (hpoints : PointsAt links (links object .parent) object before place link)
    (hchildren : links.Children count (links object .parent) (before ++ object :: after)) :
    links.Removed (links.detach place link object) count object := by
  have hbounded : (links.detach place link object).Bounded count :=
    ((h.bounded.set (h.bounded object hobject .sibling)).set (Nat.zero_le _)).set
      (Nat.zero_le _)
  have hleft := Children.detach_parent hpoints hchildren hparent
  have hothers : ∀ other others, Counted count other → other ≠ links object .parent →
      links.Children count other others →
      (links.detach place link object).Children count other others :=
    fun other others hother => Children.detach_other hpoints hchildren hother.1
  refine ⟨⟨hbounded, fun other hother => ?_⟩, detach_parent_self, fun _ => detach_sibling_self,
    fun children _ h => ?_, hothers⟩
  · by_cases hsame : other = links object .parent
    · exact ⟨before ++ after, hsame ▸ hleft⟩
    · obtain ⟨others, h⟩ := h.children other hother
      exact ⟨others, hothers other others hother hsame h⟩
  · obtain rfl := h.path.unique hchildren.path
    have hnot : object ∉ before := fun hmem =>
      (List.nodup_append.mp hchildren.nodup).2.2 object hmem object List.mem_cons_self rfl
    rw [List.erase_append_right _ hnot, List.erase_cons_head]
    exact hleft

/-- An object that is out is nobody's child. -/
theorem Removed.notMem (h : links.Removed later count object) (hparent : parent ≠ 0)
    (hchildren : later.Children count parent children) : object ∉ children := by
  intro hmem
  have := ((hchildren.mem_iff object).mp hmem).2
  exact hparent (this.symm.trans h.parent_eq)

/-- The children of any object without the one that was taken out. -/
theorem Removed.children_erase (h : links.Removed later count object) (hparent : Counted count parent)
    (hchildren : links.Children count parent children) :
    later.Children count parent (children.erase object) := by
  by_cases hsame : parent = links object .parent
  · subst hsame
    exact h.of_parent children hparent.1 hchildren
  · have hkept := h.of_other parent children hparent hsame hchildren
    rw [List.erase_of_not_mem (h.notMem hparent.1 hkept)]
    exact hkept

/-! ## Putting an object in -/

/-- An object that is nobody's child made the first child of another. -/
def attach (links : Links) (object destination : Word) : Links :=
  ((links.set object .sibling (links destination .child)).set object .parent destination).set
    destination .child object

section Attach

variable {destination : Word}

/-- The siblings of others are left when an object is put in. -/
theorem attach_sibling (hne : other ≠ object) :
    links.attach object destination other .sibling = links other .sibling := by
  rw [attach, set_of_ne_link _ _ (by nofun), set_of_ne_link _ _ (by nofun),
    set_of_ne_object _ _ hne]

/-- An object that is put in has its destination as parent. -/
theorem attach_parent_self : links.attach object destination object .parent = destination := by
  rw [attach, set_of_ne_link _ _ (by nofun), set_self]

/-- The parents of others are left when an object is put in. -/
theorem attach_parent (hne : other ≠ object) :
    links.attach object destination other .parent = links other .parent := by
  rw [attach, set_of_ne_link _ _ (by nofun), set_of_ne_object _ _ hne,
    set_of_ne_link _ _ (by nofun)]

/-- The children of others are left when an object is put in. -/
theorem attach_child (hne : other ≠ destination) :
    links.attach object destination other .child = links other .child := by
  rw [attach, set_of_ne_object _ _ hne, set_of_ne_link _ _ (by nofun),
    set_of_ne_link _ _ (by nofun)]

/-- An object that is put in comes before the children of its destination. -/
theorem Children.attach_destination (h : links.Children count destination children)
    (hobject : Counted count object) (hout : object ∉ children) :
    (links.attach object destination).Children count destination (object :: children) := by
  have hne (other : Word) (hother : other ∈ children) : other ≠ object :=
    fun heq => hout (heq ▸ hother)
  refine ⟨⟨?_, hobject.1, ?_⟩, List.nodup_cons.mpr ⟨hout, h.nodup⟩, fun other => ?_⟩
  · rw [attach, set_self]
  · have hsibling : links.attach object destination object .sibling = links destination .child := by
      rw [attach, set_of_ne_link _ _ (by nofun), set_of_ne_link _ _ (by nofun), set_self]
    rw [hsibling]
    exact h.path.congr fun other hother => attach_sibling (hne other hother)
  · by_cases hother : other = object
    · subst hother
      rw [attach_parent_self]
      simp [hobject]
    · rw [attach_parent hother, ← h.mem_iff, List.mem_cons]
      simp [hother]

/-- Other objects keep their children when an object is put in. -/
theorem Children.attach_other (h : links.Children count other children)
    (hne : other ≠ destination) (hout : links object .parent ≠ other) :
    (links.attach object destination).Children count other children := by
  refine h.congr (attach_child hne) (fun member hmember => attach_sibling ?_) fun member => ?_
  · rintro rfl
    exact hout ((h.mem_iff member).mp hmember).2
  · by_cases hmember : member = object
    · subst hmember
      rw [attach_parent_self]
      exact iff_of_false hne.symm hout
    · rw [attach_parent hmember]

end Attach

/-- What becomes of a tree when an object is put in: it is the first child of its destination,
its former parent loses it, and all others keep their children. -/
structure Inserted (links later : Links) (count : Nat) (object destination : Word) : Prop where
  consistent : later.Consistent count
  at_destination : ∀ children, links.Children count destination children →
    later.Children count destination (object :: children.erase object)
  of_parent : ∀ children, links object .parent ≠ 0 → links object .parent ≠ destination →
    links.Children count (links object .parent) children →
    later.Children count (links object .parent) (children.erase object)
  of_other : ∀ other children, Counted count other → other ≠ links object .parent →
    other ≠ destination → links.Children count other children →
    later.Children count other children

/-- **What was taken out can be put in**, and the tree stays consistent. -/
theorem Removed.inserted {destination : Word} (h : links.Removed later count object)
    (hobject : Counted count object) (hdestination : Counted count destination) :
    links.Inserted (later.attach object destination) count object destination := by
  have hbounded : (later.attach object destination).Bounded count :=
    ((h.consistent.bounded.set (h.consistent.bounded _ hdestination .child)).set
      hdestination.2).set hobject.2
  have hroot {other : Word} (hother : other ≠ 0) : later object .parent ≠ other := by
    rw [h.parent_eq]
    exact hother.symm
  have hat (children : List Word) (hchildren : later.Children count destination children) :=
    hchildren.attach_destination hobject (h.notMem hdestination.1 hchildren)
  refine ⟨⟨hbounded, fun other hother => ?_⟩, fun children hchildren => ?_,
    fun children hne hdiffers hchildren => ?_, fun other children hother hdiffers hne hchildren => ?_⟩
  · obtain ⟨children, hchildren⟩ := h.consistent.children other hother
    by_cases hsame : other = destination
    · subst hsame
      exact ⟨_, hat children hchildren⟩
    · exact ⟨children, hchildren.attach_other hsame (hroot hother.1)⟩
  · exact hat _ (h.children_erase hdestination hchildren)
  · exact (h.of_parent children hne hchildren).attach_other hdiffers (hroot hne)
  · exact (h.of_other other children hother hdiffers hchildren).attach_other hne (hroot hother.1)

/-- The way along children begins with the first, or at its end. -/
theorem Path.first_mem (h : links.Path first children last) : first ∈ children ++ [last] := by
  cases children with
  | nil => exact List.mem_singleton.mpr h
  | cons head rest => exact h.1 ▸ List.mem_cons_self

end Links

namespace ObjectTable

open Links

variable {table : ObjectTable} {memory : Memory} {draft : Draft} {count : Nat}
  {object parent : Word}

/-! ## The walk along the siblings -/

/-- There are not more children than there are words. -/
theorem length_le_maxChildren {objects : List Word} (h : objects.Nodup) :
    objects.length ≤ maxChildren := by
  have hnodup : (objects.map UInt16.toNat).Nodup := 
    List.Pairwise.map _ (fun _ _ hne heq => hne (UInt16.toNat_inj.mp heq)) h
  have hsubset : objects.map UInt16.toNat ⊆ List.range maxChildren := by
    intro n hn
    obtain ⟨word, -, rfl⟩ := List.mem_map.mp hn
    exact List.mem_range.mpr word.toNat_lt
  have hle := (List.subperm_of_subset hnodup hsubset).length_le
  rwa [List.length_map, List.length_range] at hle

/-- The walk ends at the child whose sibling is looked for. -/
theorem elder_eq_ok {first elder : Word} {before : List Word} {visits : Nat}
    (hroom : table.Roomy memory count)
    (hpath : (table.linkAt memory).Path first before elder)
    (hlast : table.linkAt memory elder .sibling = object)
    (hcounted : ∀ other ∈ before ++ [elder], Counted count other)
    (hne : ∀ other ∈ before ++ [elder], other ≠ object) (hvisits : before.length < visits) :
    table.elder memory object parent visits first = .ok elder := by
  induction before generalizing first visits with
  | nil =>
      obtain ⟨visits, rfl⟩ := Nat.exists_eq_succ_of_ne_zero (Nat.ne_of_gt hvisits)
      have helder := hcounted elder List.mem_cons_self
      obtain rfl : first = elder := hpath
      rw [ObjectTable.elder, if_neg helder.1, hroom.link_eq_linkAt helder _, hlast]
      exact if_pos rfl
  | cons head rest ih =>
      obtain ⟨visits, rfl⟩ := Nat.exists_eq_succ_of_ne_zero (Nat.ne_of_gt (Nat.zero_lt_of_lt hvisits))
      obtain ⟨rfl, hzero, hrest⟩ := hpath
      have hhead := hcounted first List.mem_cons_self
      have hnext := hne _ (List.mem_cons_of_mem _ hrest.first_mem)
      rw [ObjectTable.elder, if_neg hzero, hroom.link_eq_linkAt hhead _]
      refine (if_neg hnext).trans (ih hrest ?_ ?_ (Nat.lt_of_succ_lt_succ hvisits))
      · exact fun other hother => hcounted other (List.mem_cons_of_mem _ hother)
      · exact fun other hother => hne other (List.mem_cons_of_mem _ hother)

/-! ## Work that sets links -/

/-- That work goes well, changes links of the first `count` objects only, and leaves the given
ones. -/
def Sets (table : ObjectTable) (count : Nat) (edit : Edit Unit) (draft : Draft) (links : Links) :
    Prop :=
  ∃ after, Work.on edit draft = (.ok (), { draft with memory := after }) ∧
    table.Relinked count draft.memory after links

/-- Doing nothing leaves the links. -/
theorem sets_pure : table.Sets count (pure ()) draft (table.linkAt draft.memory) :=
  ⟨draft.memory, rfl, .refl _ _ _⟩

/-- Looking goes on with what is seen. -/
theorem sets_look {α : Type} {f : Memory → Except Fault α} {next : α → Edit Unit} {a : α}
    {links : Links} (hlook : f draft.memory = .ok a) (hnext : table.Sets count (next a) draft links) :
    table.Sets count (Edit.look f >>= next) draft links := by
  obtain ⟨after, hon, hrelinked⟩ := hnext
  refine ⟨after, ?_, hrelinked⟩
  rw [Work.on_bind, Edit.on_look, hlook]
  exact hon

/-- After links are set, work goes on in a memory that has them. -/
theorem Sets.bind {edit : Edit Unit} {next : Unit → Edit Unit} {links later : Links}
    (hroom : table.Roomy draft.memory count) (h : table.Sets count edit draft links)
    (hnext : ∀ after, table.Roomy after count → table.linkAt after = links →
      table.Sets count (next ()) { draft with memory := after } later) :
    table.Sets count (edit >>= next) draft later := by
  obtain ⟨middle, hon, hmiddle⟩ := h
  obtain ⟨after, hnextOn, hafter⟩ :=
    hnext middle (hroom.congr hmiddle.same.story_eq) hmiddle.links_eq
  refine ⟨after, ?_, hmiddle.trans hafter⟩
  rw [Work.on_bind, hon]
  exact hnextOn

/-- A link of a counted object that is set is set in memory. -/
theorem sets_setLink {link : Link} {value : Word} {links : Links}
    (hroom : table.Roomy draft.memory count) (hlinks : table.linkAt draft.memory = links)
    (hobject : Counted count object) (hvalue : value.toNat ≤ count) :
    table.Sets count (table.setLink object link value) draft (links.set object link value) :=
  hlinks ▸ on_setLink hroom hobject hvalue

/-- The link that led to an object changed, then its own: that takes it out. -/
theorem sets_detach {place : Word} {link : Link} {links : Links}
    (hroom : table.Roomy draft.memory count) (hlinks : table.linkAt draft.memory = links)
    (hplace : Counted count place) (hobject : Counted count object)
    (hsibling : (links object .sibling).toNat ≤ count) :
    table.Sets count (do
        table.setLink place link (links object .sibling)
        table.setLink object .parent 0
        table.setLink object .sibling 0) draft (links.detach place link object) :=
  .bind hroom (sets_setLink hroom hlinks hplace hsibling) fun _ hroom hlinks =>
    .bind hroom (sets_setLink hroom hlinks hobject (Nat.zero_le _)) fun _ hroom hlinks =>
      sets_setLink hroom hlinks hobject (Nat.zero_le _)

/-- An object is put in by setting three links. -/
theorem sets_attach {destination : Word} {links : Links}
    (hroom : table.Roomy draft.memory count) (hlinks : table.linkAt draft.memory = links)
    (hobject : Counted count object) (hdestination : Counted count destination)
    (hfirst : (links destination .child).toNat ≤ count) :
    table.Sets count (do
        table.setLink object .sibling (links destination .child)
        table.setLink object .parent destination
        table.setLink destination .child object) draft (links.attach object destination) :=
  .bind hroom (sets_setLink hroom hlinks hobject hfirst) fun _ hroom hlinks =>
    .bind hroom (sets_setLink hroom hlinks hobject hdestination.2) fun _ hroom hlinks =>
      sets_setLink hroom hlinks hdestination hobject.2

/-- Taking an object out of a tree goes well. -/
theorem sets_remove {links : Links} (hroom : table.Roomy draft.memory count)
    (hlinks : table.linkAt draft.memory = links) (htree : links.Consistent count)
    (hobject : Counted count object) :
    ∃ later, table.Sets count (table.remove object) draft later ∧
      links.Removed later count object := by
  subst hlinks
  have hlook {other : Word} (hother : Counted count other) (link : Link) :=
    hroom.link_eq_linkAt hother link
  unfold remove
  by_cases hroot : table.linkAt draft.memory object .parent = 0
  · refine ⟨_, sets_look (hlook hobject .parent) ?_, htree.removed_root hroot⟩
    rw [if_neg (not_not.mpr hroot)]
    exact sets_pure
  · have hparent : Counted count (table.linkAt draft.memory object .parent) :=
      ⟨hroot, htree.bounded object hobject .parent⟩
    obtain ⟨children, hchildren⟩ := htree.children _ hparent
    obtain ⟨before, after, rfl⟩ :=
      List.append_of_mem ((hchildren.mem_iff object).mpr ⟨hobject, rfl⟩)
    obtain ⟨place, link, hpoints⟩ := pointsAt_of_path hchildren.path
    refine ⟨_, ?_, htree.removed_detach hobject hroot hpoints hchildren⟩
    refine sets_look (hlook hobject .parent) ?_
    rw [if_pos hroot]
    refine sets_look (hlook hobject .sibling) (sets_look (hlook hparent .child) ?_)
    have hsibling := htree.bounded object hobject .sibling
    have hcounted : ∀ other ∈ before, Counted count other := fun other hother =>
      ((hchildren.mem_iff other).mp (List.mem_append_left _ hother)).1
    have hne : ∀ other ∈ before, other ≠ object := fun other hother =>
      (List.nodup_append.mp hchildren.nodup).2.2 other hother object List.mem_cons_self
    cases hpoints with
    | first hfirst =>
        rw [if_pos hfirst]
        exact sets_detach hroom rfl hparent hobject hsibling
    | @elder before _ hpath hlast =>
        rw [if_neg (hne _ hpath.first_mem)]
        have hlength : before.length < maxChildren := by
          have := length_le_maxChildren hchildren.nodup
          simp only [List.length_append, List.length_cons] at this
          omega
        refine sets_look (elder_eq_ok hroom hpath hlast hcounted hne hlength) ?_
        exact sets_detach hroom rfl (hcounted place (by simp)) hobject hsibling

/-- Making an object the first child of another goes well. -/
theorem sets_insert {destination : Word} {links : Links} (hroom : table.Roomy draft.memory count)
    (hlinks : table.linkAt draft.memory = links) (htree : links.Consistent count)
    (hobject : Counted count object) (hdestination : Counted count destination) :
    ∃ later, table.Sets count (table.insert object destination) draft later ∧
      links.Inserted later count object destination := by
  obtain ⟨middle, hsets, hremoved⟩ := sets_remove hroom hlinks htree hobject
  refine ⟨_, ?_, hremoved.inserted hobject hdestination⟩
  refine Sets.bind hroom hsets fun removed hroom hlinks => ?_
  have hfirst := hremoved.consistent.bounded destination hdestination .child
  rw [← hlinks] at hfirst ⊢
  refine sets_look (hroom.link_eq_linkAt hdestination .child) ?_
  exact sets_attach hroom rfl hobject hdestination hfirst

/-- That nothing has changed but links of the first `count` objects. -/
structure LinksOnly (table : ObjectTable) (count : Nat) (memory after : Memory) : Prop where
  bytes : Memory.SameOff (table.IsLinkByte count) memory after
  attributes : ∀ object number,
    table.testAttribute after object number = table.testAttribute memory object number

/-- Memory that is relinked has changed in links only. -/
theorem Relinked.linksOnly {after : Memory} {links : Links}
    (h : table.Relinked count memory after links) : table.LinksOnly count memory after :=
  ⟨h.same, testAttribute_congr h.same⟩

/-- **The tree is kept.**  In a table with room for `count` objects that form a tree, any of
them can be taken out, and any can be put into any, itself and its descendants included.  Both
go well, leave a tree with the lists of children that they should, and change nothing but
links. -/
theorem tree_kept {destination : Word} (hroom : table.Roomy memory count)
    (htree : (table.linkAt memory).Consistent count) (hobject : Counted count object)
    (hdestination : Counted count destination) :
    (∃ after, (table.remove object).run memory = (.ok (), { memory := after }) ∧
      (table.linkAt memory).Removed (table.linkAt after) count object ∧
      table.LinksOnly count memory after) ∧
    (∃ after, (table.insert object destination).run memory = (.ok (), { memory := after }) ∧
      (table.linkAt memory).Inserted (table.linkAt after) count object destination ∧
      table.LinksOnly count memory after) := by
  have hroom' : table.Roomy ({ memory } : Draft).memory count := hroom
  obtain ⟨_, ⟨removed, hrun, hrelinked⟩, hremoved⟩ := sets_remove hroom' rfl htree hobject
  obtain ⟨_, ⟨inserted, hrun', hrelinked'⟩, hinserted⟩ :=
    sets_insert hroom' rfl htree hobject hdestination
  exact ⟨⟨removed, hrun, hrelinked.links_eq ▸ hremoved, hrelinked.linksOnly⟩,
    ⟨inserted, hrun', hrelinked'.links_eq ▸ hinserted, hrelinked'.linksOnly⟩⟩

/-! ## A family of five -/

/-- The first objects, in order. -/
def numbered (count : Nat) : List Word :=
  (List.range count).map fun n => UInt16.ofNat (n + 1)

/-- The counted objects are numbered. -/
theorem mem_numbered (h : Counted count object) : object ∈ numbered count := by
  have hpos : object.toNat ≠ 0 := fun hzero => h.1 (UInt16.toNat_inj.mp hzero)
  refine List.mem_map.mpr ⟨object.toNat - 1, List.mem_range.mpr (by have := h.2; omega), ?_⟩
  rw [Nat.sub_add_cancel (Nat.pos_of_ne_zero hpos), UInt16.ofNat_toNat]

/-- What holds of all counted objects can be found out by going through the first ones. -/
theorem forall_counted {P : Word → Prop} [DecidablePred P]
    (h : ((numbered count).all fun object => P object) = true) :
    ∀ object, Counted count object → P object := by
  intro object hobject
  exact of_decide_eq_true (List.all_eq_true.mp h object (mem_numbered hobject))

end ObjectTable

namespace Links

open ObjectTable

instance decidablePath (links : Links) :
    (first : Word) → (children : List Word) → (last : Word) →
      Decidable (links.Path first children last)
  | first, [], last => inferInstanceAs (Decidable (first = last))
  | first, object :: rest, last =>
    have := decidablePath links (links object .sibling) rest last
    inferInstanceAs (Decidable (first = object ∧ object ≠ 0 ∧ _))

instance (count : Nat) (object : Word) : Decidable (Counted count object) :=
  inferInstanceAs (Decidable (_ ∧ _))

/-- Which objects are children has to be looked up for the first `count` objects only. -/
theorem children_iff {links : Links} {count : Nat} {parent : Word} {children : List Word} :
    (links.Path (links parent .child) children 0 ∧ children.Nodup ∧
      ((children ++ numbered count).all fun object =>
        object ∈ children ↔ Counted count object ∧ links object .parent = parent) = true) ↔
    links.Children count parent children := by
  simp only [List.all_eq_true, decide_eq_true_eq]
  constructor
  · rintro ⟨hpath, hnodup, hmem⟩
    refine ⟨hpath, hnodup, fun object => ⟨fun hobject => ?_, fun hobject => ?_⟩⟩
    · exact (hmem object (List.mem_append_left _ hobject)).mp hobject
    · exact (hmem object (List.mem_append_right _ (mem_numbered hobject.1))).mpr hobject
  · rintro ⟨hpath, hnodup, hmem⟩
    exact ⟨hpath, hnodup, fun object _ => hmem object⟩

instance (links : Links) (count : Nat) (parent : Word) (children : List Word) :
    Decidable (links.Children count parent children) :=
  decidable_of_iff _ children_iff

end Links

namespace ObjectTable

/-- A table of version 3 right behind the header. -/
def family : ObjectTable := { version := 3, address := 64 }

/-- Five objects: the first has the children 2, 3 and 4, the third has the child 5. -/
def familyMemory : Memory :=
  ((Memory.ofImage ([3] ++ List.replicate 13 0 ++ [0, 171] ++ List.replicate 110 0
    ++ [0, 0, 0, 0, 0, 0, 2, 0, 0] ++ [0, 0, 0, 0, 1, 3, 0, 0, 0] ++ [0, 0, 0, 0, 1, 4, 5, 0, 0]
    ++ [0, 0, 0, 0, 1, 0, 0, 0, 0] ++ [0, 0, 0, 0, 3, 0, 0, 0, 0] : List UInt8).toArray).toOption).get
    (by decide +kernel)

/-- The children of each. -/
def familyChildren (object : Word) : List Word :=
  if object = 1 then [2, 3, 4] else if object = 3 then [5] else []

theorem roomy_family : family.Roomy familyMemory 5 := ⟨by decide, by decide +kernel⟩

/-- The family is consistent. -/
theorem consistent_family : (family.linkAt familyMemory).Consistent 5 where
  bounded := by
    have hall : ∀ object, Counted 5 object → ∀ link ∈ [Link.parent, .sibling, .child],
        (family.linkAt familyMemory object link).toNat ≤ 5 := forall_counted (by decide +kernel)
    intro object hobject link
    exact hall object hobject link (by cases link <;> decide)
  children := by
    have hall : ∀ object, Counted 5 object →
        (family.linkAt familyMemory).Children 5 object (familyChildren object) :=
      forall_counted (by decide +kernel)
    exact fun object hobject => ⟨_, hall object hobject⟩

/-- The third leaves the others behind, and is then put into its own child. -/
theorem tree_kept_family :
    (∃ after, (family.remove 3).run familyMemory = (.ok (), { memory := after }) ∧
      (family.linkAt after).Children 5 1 [2, 4]) ∧
    (∃ after, (family.insert 3 5).run familyMemory = (.ok (), { memory := after }) ∧
      (family.linkAt after).Children 5 1 [2, 4] ∧ (family.linkAt after).Children 5 5 [3] ∧
      (family.linkAt after).Children 5 3 [5]) := by
  have hchildren : (family.linkAt familyMemory).Children 5 1 [2, 3, 4] ∧
      (family.linkAt familyMemory).Children 5 5 [] ∧
      (family.linkAt familyMemory).Children 5 3 [5] := by decide +kernel
  have hparent : family.linkAt familyMemory 3 .parent = 1 := by decide +kernel
  have hthird : Counted 5 3 := by decide
  have hfifth : Counted 5 5 := by decide
  obtain ⟨⟨removed, hrun, hremoved, -⟩, ⟨inserted, hrun', hinserted, -⟩⟩ :=
    tree_kept roomy_family consistent_family hthird hfifth
  have hleft := hremoved.of_parent [2, 3, 4]
  have hleft' := hinserted.of_parent [2, 3, 4]
  rw [hparent] at hleft hleft'
  refine ⟨⟨removed, hrun, hleft (by decide) hchildren.1⟩, inserted, hrun', ?_, ?_, ?_⟩
  · exact hleft' (by decide) (by decide) hchildren.1
  · exact hinserted.at_destination [] hchildren.2.1
  · refine hinserted.of_other 3 [5] (by decide) ?_ (by decide) hchildren.2.2
    rw [hparent]
    decide

end ObjectTable

end StoryMachine
