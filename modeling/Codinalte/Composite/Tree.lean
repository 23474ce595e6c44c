import Mathlib.Data.List.Nodup

/-! The components of an assembled composite, and the order in which the visitors go through
them. -/

namespace Codinalte.Composite

abbrev Path := List String

/-- What the generators distinguish: a `primitive` by its priority and by which of the life cycle
interfaces it provides; the binding components `event`, with the component that its `target`
resolves to, and `trace`; the proxies; and what is constructed by no statement. -/
inductive Kind where
  | primitive (priority : String) (constructor destructor starter stopper : Bool)
  | event (target : Option Path)
  | trace
  | proxycomp
  | proxystub
  | proxyskel (priority : String)
  | proxybind (client : Path)
  | automanaged
deriving DecidableEq

/-- `isFirstInstance` is unset for a later instance of a singleton. -/
inductive Component where
  | raw (nameinowner : String) (order : Int) (isFirstInstance : Bool) (kind : Kind)
  | composite (nameinowner : String) (order : Int) (subcomponents : List Component)
      (controllercomponents : List Component)

namespace Component

def nameinowner : Component → String
  | .raw name _ _ _ => name
  | .composite name _ _ _ => name

def order : Component → Int
  | .raw _ order _ _ => order
  | .composite _ order _ _ => order

end Component

/-- The contents of a composite are inserted according to their order numbers. -/
def addFcSubComponent (component : Component) : List Component → List Component
  | [] => [component]
  | sc :: subcomponents =>
    if component.order < sc.order then component :: sc :: subcomponents
    else sc :: addFcSubComponent component subcomponents

/-- A component that the visitors end at. -/
structure Leaf where
  path : Path
  kind : Kind
deriving DecidableEq

mutual

/-- The leaves in the order in which a visitor travels them. -/
def travelComponent (reserveOrder : Bool) (owner : Path) : Component → List Leaf
  | .raw name _ isFirstInstance kind =>
    if isFirstInstance then [⟨owner ++ [name], kind⟩] else []
  | .composite name _ subcomponents controllercomponents =>
    let subs := travelEach reserveOrder (owner ++ [name]) subcomponents
    let controllers := travelEach reserveOrder (owner ++ [name]) controllercomponents
    -- under `reserveOrder` each one is added in front of the list
    if reserveOrder then (subs ++ controllers).reverse.flatten else (subs ++ controllers).flatten

def travelEach (reserveOrder : Bool) (owner : Path) : List Component → List (List Leaf)
  | [] => []
  | sc :: rest => travelComponent reserveOrder owner sc :: travelEach reserveOrder owner rest

end

/-- The top composite: its contents have their own names for paths. -/
structure Top where
  singleton : Bool
  subcomponents : List Component
  controllercomponents : List Component

def browseComponent (reserveOrder : Bool) (top : Top) : List Leaf :=
  let subs := travelEach reserveOrder [] top.subcomponents
  let controllers := travelEach reserveOrder [] top.controllercomponents
  if reserveOrder then (subs ++ controllers).reverse.flatten else (subs ++ controllers).flatten

section Reverse

theorem flatten_reverse_each {α : Type*} {l l' : List (List α)}
    (h : List.Forall₂ (fun a b => a = b.reverse) l l') : l.reverse.flatten = l'.flatten.reverse := by
  have hmap : l = l'.map List.reverse := by
    induction h with
    | nil => rfl
    | cons hab _ ih => rw [hab, ih, List.map_cons]
  rw [hmap, List.reverse_flatten]

mutual

/-- The visitors that go backwards meet the leaves in exactly the reverse order. -/
theorem travelComponent_reverse (owner : Path) : ∀ component : Component,
    travelComponent true owner component = (travelComponent false owner component).reverse
  | .raw name order isFirstInstance kind => by
    unfold travelComponent
    split <;> rfl
  | .composite name order subcomponents controllercomponents => by
    have hsubs := travelEach_reverse (owner ++ [name]) subcomponents
    have hcontrollers := travelEach_reverse (owner ++ [name]) controllercomponents
    exact flatten_reverse_each (List.rel_append hsubs hcontrollers)

theorem travelEach_reverse (owner : Path) : ∀ components : List Component,
    List.Forall₂ (fun a b => a = b.reverse) (travelEach true owner components)
      (travelEach false owner components)
  | [] => .nil
  | sc :: rest => .cons (travelComponent_reverse owner sc) (travelEach_reverse owner rest)

end

theorem browseComponent_reverse (top : Top) :
    browseComponent true top = (browseComponent false top).reverse :=
  flatten_reverse_each (List.rel_append (travelEach_reverse [] top.subcomponents)
    (travelEach_reverse [] top.controllercomponents))

end Reverse

section Names

mutual

/-- No two contents of one composite have one name, as the instantiation checks. -/
def Component.Named : Component → Prop
  | .raw _ _ _ _ => True
  | .composite _ _ subcomponents controllercomponents =>
    ((subcomponents ++ controllercomponents).map Component.nameinowner).Nodup ∧
      NamedEach subcomponents ∧ NamedEach controllercomponents

def NamedEach : List Component → Prop
  | [] => True
  | sc :: rest => sc.Named ∧ NamedEach rest

end

structure Top.Named (top : Top) : Prop where
  names : ((top.subcomponents ++ top.controllercomponents).map Component.nameinowner).Nodup
  subcomponents : NamedEach top.subcomponents
  controllercomponents : NamedEach top.controllercomponents

mutual

/-- Every leaf of a component lies under its path. -/
theorem path_of_component (owner : Path) : ∀ (component : Component) (leaf : Leaf),
    leaf ∈ travelComponent false owner component →
      ∃ rest, leaf.path = owner ++ component.nameinowner :: rest
  | .raw name order isFirstInstance kind, leaf, hleaf => by
    unfold travelComponent at hleaf
    split at hleaf
    · rw [List.mem_singleton.mp hleaf]
      exact ⟨[], rfl⟩
    · cases hleaf
  | .composite name order subcomponents controllercomponents, leaf, hleaf => by
    have hmem : leaf ∈ (travelEach false (owner ++ [name]) subcomponents ++
        travelEach false (owner ++ [name]) controllercomponents).flatten := hleaf
    have hpath : ∃ path, leaf.path = (owner ++ [name]) ++ path := by
      rw [List.flatten_append, List.mem_append] at hmem
      rcases hmem with hmem | hmem
      · obtain ⟨sc, -, rest, hrest⟩ := path_of_each (owner ++ [name]) subcomponents leaf hmem
        exact ⟨_, hrest⟩
      · obtain ⟨sc, -, rest, hrest⟩ := path_of_each (owner ++ [name]) controllercomponents leaf hmem
        exact ⟨_, hrest⟩
    obtain ⟨path, hpath⟩ := hpath
    refine ⟨path, ?_⟩
    rw [hpath, List.append_assoc]
    rfl

theorem path_of_each (owner : Path) : ∀ (components : List Component) (leaf : Leaf),
    leaf ∈ (travelEach false owner components).flatten →
      ∃ sc ∈ components, ∃ rest, leaf.path = owner ++ sc.nameinowner :: rest
  | [], leaf, hleaf => nomatch hleaf
  | sc :: rest, leaf, hleaf => by
    unfold travelEach at hleaf
    rw [List.flatten_cons, List.mem_append] at hleaf
    rcases hleaf with hleaf | hleaf
    · exact ⟨sc, List.mem_cons_self, path_of_component owner sc leaf hleaf⟩
    · obtain ⟨sc', hsc', hpath⟩ := path_of_each owner rest leaf hleaf
      exact ⟨sc', List.mem_cons_of_mem _ hsc', hpath⟩

end

/-- The leaves under contents with different names have different paths. -/
theorem paths_append {owner : Path} {l l' : List Leaf} {names names' : List String}
    (h : (l.map Leaf.path).Nodup) (h' : (l'.map Leaf.path).Nodup) (hnames : (names ++ names').Nodup)
    (hl : ∀ leaf ∈ l, ∃ name ∈ names, ∃ rest, leaf.path = owner ++ name :: rest)
    (hl' : ∀ leaf ∈ l', ∃ name ∈ names', ∃ rest, leaf.path = owner ++ name :: rest) :
    ((l ++ l').map Leaf.path).Nodup := by
  rw [List.map_append]
  refine List.Nodup.append h h' ?_
  intro path hpath hpath'
  obtain ⟨leaf, hleaf, rfl⟩ := List.mem_map.mp hpath
  obtain ⟨leaf', hleaf', heq⟩ := List.mem_map.mp hpath'
  obtain ⟨name, hname, rest, hrest⟩ := hl leaf hleaf
  obtain ⟨name', hname', rest', hrest'⟩ := hl' leaf' hleaf'
  rw [hrest, hrest', List.append_cancel_left_eq, List.cons.injEq] at heq
  exact List.disjoint_of_nodup_append hnames hname (heq.1 ▸ hname')

theorem names_of_each {owner : Path} {components : List Component} {leaf : Leaf}
    (h : leaf ∈ (travelEach false owner components).flatten) :
    ∃ name ∈ components.map Component.nameinowner, ∃ rest, leaf.path = owner ++ name :: rest := by
  obtain ⟨sc, hsc, hpath⟩ := path_of_each owner components leaf h
  exact ⟨sc.nameinowner, List.mem_map_of_mem hsc, hpath⟩

mutual

/-- No two leaves have one path. -/
theorem paths_of_component (owner : Path) : ∀ component : Component, component.Named →
    ((travelComponent false owner component).map Leaf.path).Nodup
  | .raw name order isFirstInstance kind, h => by
    unfold travelComponent
    split
    · exact List.nodup_singleton _
    · exact List.nodup_nil
  | .composite name order subcomponents controllercomponents, h => by
    obtain ⟨hnames, hsubs, hcontrollers⟩ := h
    rw [List.map_append] at hnames
    have hleft := paths_of_each (owner ++ [name]) subcomponents hsubs hnames.of_append_left
    have hright := paths_of_each (owner ++ [name]) controllercomponents hcontrollers
      hnames.of_append_right
    have happend := paths_append hleft hright hnames (fun _ h => names_of_each h)
      (fun _ h => names_of_each h)
    rw [← List.flatten_append] at happend
    exact happend

theorem paths_of_each (owner : Path) : ∀ components : List Component, NamedEach components →
    (components.map Component.nameinowner).Nodup →
    ((travelEach false owner components).flatten.map Leaf.path).Nodup
  | [], h, hnames => List.nodup_nil
  | sc :: rest, h, hnames => by
    rw [List.map_cons] at hnames
    have hnames' : ([sc.nameinowner] ++ rest.map Component.nameinowner).Nodup := hnames
    have hone := paths_of_component owner sc h.1
    have hrest := paths_of_each owner rest h.2 hnames.of_cons
    refine paths_append hone hrest hnames' ?_ (fun _ h => names_of_each h)
    intro leaf hleaf
    exact ⟨sc.nameinowner, List.mem_singleton_self _, path_of_component owner sc leaf hleaf⟩

end

theorem browse_paths {top : Top} (h : top.Named) :
    ((browseComponent false top).map Leaf.path).Nodup := by
  have hnames := h.names
  rw [List.map_append] at hnames
  have hleft := paths_of_each [] top.subcomponents h.subcomponents hnames.of_append_left
  have hright := paths_of_each [] top.controllercomponents h.controllercomponents
    hnames.of_append_right
  have happend := paths_append hleft hright hnames (fun _ h => names_of_each h)
    (fun _ h => names_of_each h)
  rw [← List.flatten_append] at happend
  exact happend

end Names

end Codinalte.Composite
