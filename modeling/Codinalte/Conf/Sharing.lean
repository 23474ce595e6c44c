import Codinalte.Conf.Loops
import Mathlib.Data.List.Induction
import Mathlib.Data.List.Nodup

/-! The definitions are shared by all components of a run: what the build of a component leaves in
the properties that it shares with others. -/

namespace Codinalte.Conf
open Codinalte.Recursion Relation

/-- The definitions as they were parsed, with the values of their properties. Each property of each
definition is an object of its own. -/
structure Database where
  components : Components
  initial : Nat → String
  own : ∀ type ∈ components, ∀ type' ∈ components, ∀ property ∈ type.properties,
    ∀ property' ∈ type'.properties, property.object = property'.object → type = type'
  each : ∀ type ∈ components, (type.properties.map Property.object).Nodup

/-- What components are built of: a definition, its clone for one more instance, or what a generator
makes, which extends nothing and has no properties. -/
inductive Built (components : Components) : Asttype → Prop where
  | definition {type : Asttype} (h : Compile components type.fullyname = .ok type) :
    Built components type
  | clone {type : Asttype} (h : Compile components type.fullyname = .ok type) (n : Nat) :
    Built components (clone type n)
  | generated {type : Asttype} (hextended : type.extended = [])
      (hproperties : type.properties = []) : Built components type

section Independence
variable (target : Target) (db : Database)

/-- A build with as many nested calls as any build needs. -/
def Database.build (componentClass : ComponentClass) (type : Asttype)
    (templates attributes : Option (List String)) (cvalues : Nat → String) :
    Except Failure Build :=
  createCanonical target db.components (db.components.length + 1) componentClass type templates
    attributes cvalues

/-- The values of the properties after some components were built. -/
inductive Reached : (Nat → String) → Prop where
  | first : Reached db.initial
  | build {cvalues : Nat → String} {componentClass : ComponentClass} {type : Asttype}
      {templates attributes : Option (List String)} {b : Build} (h : Reached cvalues)
      (htype : Built db.components type)
      (hbuild : db.build target componentClass type templates attributes cvalues = .ok b) :
      Reached b.cvalues

/-- What a component is made of, and the values of its properties. -/
def Build.seen (b : Build) : Canonical × List (String × String) :=
  (b.component, b.component.properties.map fun property =>
    (property.name, b.cvalues property.object))

/-- Each component is the same as when it is built first, and its build leaves all definitions as
they are. -/
def Independent : Prop :=
  ∀ cvalues, Reached target db cvalues → ∀ componentClass type templates attributes,
    Built db.components type →
      (db.build target componentClass type templates attributes cvalues).map Build.seen =
        (db.build target componentClass type templates attributes db.initial).map Build.seen ∧
      ∀ b, db.build target componentClass type templates attributes cvalues = .ok b →
        b.cvalues = cvalues

end Independence

section Order
variable (components : Components)

/-- The names that were come to, and the definitions that were merged, each behind all that it
extends. -/
def mergeDescent : Descent Asttype Definition (List String × List Asttype) Failure where
  edges type := type.extended
  follow _ s extend := do
    let implementsType ← Compile components extend.type
    return if implementsType.fullyname ∈ s.1 then .inl s
    else .inr (implementsType, (s.1 ++ [implementsType.fullyname], s.2))
  leave _ _ _ _ s := .ok s
  close type s := (s.1, s.2 ++ [type])

def mergeOrder (type : Asttype) : Except Failure (List Asttype) :=
  ((mergeDescent components).run .unfinished (components.length + 1) type ([], [])).map Prod.snd

end Order

/-- In each component that can be built, the first and the last property of a name that are merged
have the same value. -/
def FirstIsLast (target : Target) (db : Database) : Prop :=
  ∀ componentClass type templates attributes b order, Built db.components type →
    db.build target componentClass type templates attributes db.initial = .ok b →
    mergeOrder db.components type = .ok order →
    ∀ name first last,
      (order.flatMap Asttype.properties).find? (·.name = name) = some first →
      (order.flatMap Asttype.properties).reverse.find? (·.name = name) = some last →
      db.initial first.object = db.initial last.object

section Properties

/-- A property of a name that is there gives its value to the first one. -/
def setProperty (s : List Property × (Nat → String)) (property : Property) :
    List Property × (Nat → String) :=
  match s.1.find? (·.name = property.name) with
  | some origproperty =>
    (s.1, Function.update s.2 origproperty.object (s.2 property.object))
  | none => (s.1 ++ [property], s.2)

variable {cvalues : Nat → String} {properties : List Property} {property : Property}

def merge (cvalues : Nat → String) (properties : List Property) :
    List Property × (Nat → String) := properties.foldl setProperty ([], cvalues)

theorem merge_concat : merge cvalues (properties ++ [property]) =
    setProperty (merge cvalues properties) property := List.foldl_concat _ _ _ _

/-- The first property of each name is there. -/
theorem find_merge (name : String) : (merge cvalues properties).1.find? (·.name = name) =
    properties.find? (·.name = name) := by
  induction properties using List.reverseRecOn with
  | nil => rfl
  | append_singleton properties property ih =>
    rw [merge_concat, List.find?_append, ← ih]
    unfold setProperty
    cases hfind : (merge cvalues properties).1.find? (·.name = property.name) with
    | none => exact List.find?_append
    | some origproperty =>
      by_cases hname : property.name = name
      · rw [← hname, hfind]
        rfl
      · have hnone : [property].find? (·.name = name) = none :=
          List.find?_eq_none.mpr fun p hp => by
            rw [List.mem_singleton.mp hp]
            exact fun h => hname (of_decide_eq_true h)
        rw [hnone, Option.or_none]

theorem name_of_find {name : String} {first : Property}
    (h : properties.find? (·.name = name) = some first) : first.name = name := by
  simpa using List.find?_some h

theorem merge_of_not_first {object : Nat} (h : ∀ name first,
    properties.find? (·.name = name) = some first → first.object ≠ object) :
    (merge cvalues properties).2 object = cvalues object := by
  induction properties using List.reverseRecOn with
  | nil => rfl
  | append_singleton properties property ih =>
    have hbefore : ∀ name first, properties.find? (·.name = name) = some first →
        first.object ≠ object := fun name first hfirst => h name first (by
      rw [List.find?_append, hfirst]
      rfl)
    rw [merge_concat]
    unfold setProperty
    cases hfind : (merge cvalues properties).1.find? (·.name = property.name) with
    | none => exact ih hbefore
    | some origproperty =>
      rw [find_merge] at hfind
      exact (Function.update_of_ne (hbefore _ _ hfind).symm _ _).trans (ih hbefore)

/-- The first property of a name ends with the value that the last one has. -/
theorem merge_first {name : String} {first last : Property}
    (hnodup : (properties.map Property.object).Nodup)
    (hfirst : properties.find? (·.name = name) = some first)
    (hlast : properties.reverse.find? (·.name = name) = some last) :
    (merge cvalues properties).2 first.object = cvalues last.object := by
  induction properties using List.reverseRecOn with
  | nil => cases hfirst
  | append_singleton properties property ih =>
    rw [List.map_append, List.nodup_append] at hnodup
    obtain ⟨hnodup, -, hother⟩ := hnodup
    have hproperty : (merge cvalues properties).2 property.object = cvalues property.object := by
      refine merge_of_not_first fun name first hfirst => ?_
      exact hother _ (List.mem_map_of_mem (List.mem_of_find?_eq_some hfirst)) _
        (List.mem_map_of_mem List.mem_cons_self)
    rw [List.find?_append] at hfirst
    rw [List.reverse_append] at hlast
    change (property :: properties.reverse).find? _ = _ at hlast
    rw [merge_concat]
    unfold setProperty
    rw [find_merge]
    by_cases hname : property.name = name
    · have hpos : ∀ l : List Property, (property :: l).find? (·.name = name) = some property :=
        fun l => List.find?_cons_of_pos (decide_eq_true hname)
      rw [hpos] at hlast
      obtain rfl : property = last := Option.some_inj.mp hlast
      rw [hname]
      cases hbefore : properties.find? (·.name = name) with
      | none =>
        rw [hbefore, Option.none_or, hpos] at hfirst
        obtain rfl : property = first := Option.some_inj.mp hfirst
        exact hproperty
      | some origproperty =>
        rw [hbefore, Option.some_or] at hfirst
        obtain rfl : origproperty = first := Option.some_inj.mp hfirst
        exact (Function.update_self _ _ _).trans hproperty
    · have hneg : ∀ l : List Property, (property :: l).find? (·.name = name) =
          l.find? (·.name = name) :=
        fun l => List.find?_cons_of_neg fun h => hname (of_decide_eq_true h)
      rw [hneg] at hlast
      rw [hneg, List.find?_nil, Option.or_none] at hfirst
      cases hbefore : properties.find? (·.name = property.name) with
      | none => exact ih hnodup hfirst hlast
      | some origproperty =>
        have hne : first.object ≠ origproperty.object := by
          intro heq
          have hsame : first = origproperty := List.inj_on_of_nodup_map hnodup
            (List.mem_of_find?_eq_some hfirst) (List.mem_of_find?_eq_some hbefore) heq
          exact hname (by rw [← name_of_find hbefore, ← hsame, name_of_find hfirst])
        exact (Function.update_of_ne hne _ _).trans (ih hnodup hfirst hlast)

theorem merge_unchanged_iff (hnodup : (properties.map Property.object).Nodup) :
    (merge cvalues properties).2 = cvalues ↔ ∀ name first last,
      properties.find? (·.name = name) = some first →
      properties.reverse.find? (·.name = name) = some last →
      cvalues first.object = cvalues last.object := by
  constructor
  · intro h name first last hfirst hlast
    exact (congrFun h first.object).symm.trans (merge_first hnodup hfirst hlast)
  · intro h
    funext object
    by_cases hobject : ∃ name first, properties.find? (·.name = name) = some first ∧
        first.object = object
    · obtain ⟨name, first, hfirst, rfl⟩ := hobject
      cases hlast : properties.reverse.find? (·.name = name) with
      | none =>
        refine absurd (List.find?_some hfirst) (List.find?_eq_none.mp hlast first ?_)
        exact List.mem_reverse.mpr (List.mem_of_find?_eq_some hfirst)
      | some last => rw [merge_first hnodup hfirst hlast, h name first last hfirst hlast]
    · exact merge_of_not_first fun name first hfirst heq => hobject ⟨name, first, hfirst, heq⟩

end Properties

section Merged
variable {components : Components} {type : Asttype} {order : List Asttype}

/-- What a part of the merge adds: the definitions of the names that it comes to. -/
structure Adds (components : Components) (f : Asttype) (s : List String × List Asttype)
    (names : List String) (new : List Asttype) : Prop where
  perm : (new.map Asttype.fullyname).Perm names
  nodup : s.1.Nodup → (s.1 ++ names).Nodup
  below : ∀ type ∈ new, TransGen (Extends components) f type

theorem order_rule : Rule (mergeDescent components) .unfinished (fun _ _ => True)
    (fun f s s' => ∃ names new, s' = (s.1 ++ names, s.2 ++ new ++ [f]) ∧
      Adds components f s names new)
    (fun f s₀ _ s => ∃ names new, s = (s₀.1 ++ names, s₀.2 ++ new) ∧
      Adds components f s₀ names new)
    (fun _ => True) where
  unfinished := trivial
  enter f s _ := ⟨[], [], by rw [List.append_nil, List.append_nil],
    ⟨.refl _, fun h => by rw [List.append_nil]; exact h, fun type h => absurd h List.not_mem_nil⟩⟩
  follow f s₀ done e rest s _ hl hJ := by
    obtain ⟨names, new, rfl, hadds⟩ := hJ
    change Outcome _ _ (Compile components e.type >>= _)
    cases hcompile : Compile components e.type with
    | error failure => trivial
    | ok child =>
      have hl : f.extended = done ++ e :: rest := hl
      have hchild : Extends components f child :=
        ⟨e, hl ▸ List.mem_append_right _ List.mem_cons_self, hcompile⟩
      change Outcome _ _ (Except.ok (if _ then _ else _))
      split_ifs with hin
      · exact ⟨names, new, rfl, hadds⟩
      · refine ⟨trivial, fun s' hpost => ?_⟩
        obtain ⟨names', new', rfl, hadds'⟩ := hpost
        refine ⟨names ++ child.fullyname :: names', new ++ (new' ++ [child]), ?_, ?_, ?_, ?_⟩
        · simp only [List.append_assoc, List.cons_append, List.nil_append]
        · rw [List.map_append, List.map_append]
          exact hadds.perm.append (List.perm_append_comm.trans (hadds'.perm.cons _))
        · intro hnodup
          have hnames := hadds'.nodup (List.nodup_append.mpr ⟨hadds.nodup hnodup,
            List.nodup_singleton _, fun a ha b hb heq => hin (by
              rw [← List.mem_singleton.mp hb, ← heq]
              exact ha)⟩)
          simpa only [List.append_assoc, List.cons_append, List.nil_append] using hnames
        · intro type htype
          rcases List.mem_append.mp htype with htype | htype
          · exact hadds.below type htype
          · rcases List.mem_append.mp htype with htype | htype
            · exact .head hchild (hadds'.below type htype)
            · rw [List.mem_singleton.mp htype]
              exact .single hchild
  close f s₀ s _ hJ := by
    obtain ⟨names, new, rfl, hadds⟩ := hJ
    exact ⟨names, new, rfl, hadds⟩

/-- The definition itself comes last; the others are below it, and of different names. -/
theorem mergeOrder_ok (h : mergeOrder components type = .ok order) :
    ∃ new, order = new ++ [type] ∧ (new.map Asttype.fullyname).Nodup ∧
      ∀ t ∈ new, TransGen (Extends components) type t := by
  unfold mergeOrder at h
  cases hrun : (mergeDescent components).run .unfinished (components.length + 1) type ([], []) with
  | error failure =>
    rw [hrun] at h
    cases h
  | ok s =>
    rw [hrun] at h
    obtain ⟨names, new, rfl, hadds⟩ := (order_rule.run _ trivial).ok hrun
    obtain rfl := Except.ok.inj h
    exact ⟨new, rfl, hadds.perm.nodup_iff.mpr (hadds.nodup List.nodup_nil), hadds.below⟩

theorem compile_of_below {t : Asttype} (h : TransGen (Extends components) type t) :
    Compile components t.fullyname = .ok t := by
  obtain ⟨a, -, e, -, hcompile⟩ := TransGen.tail'_iff.mp h
  exact Compile_name hcompile

end Merged

section Objects
variable {db : Database} {type : Asttype} {order : List Asttype}

theorem objects_nodup (db : Database) {l : List Asttype} (hl : l.Nodup)
    (hmem : ∀ t ∈ l, t ∈ db.components) :
    ((l.flatMap Asttype.properties).map Property.object).Nodup := by
  induction l with
  | nil => exact List.nodup_nil
  | cons t l ih =>
    obtain ⟨hnot, hl⟩ := List.nodup_cons.mp hl
    rw [List.flatMap_cons, List.map_append, List.nodup_append]
    refine ⟨db.each t (hmem t List.mem_cons_self),
      ih hl fun t' ht' => hmem t' (List.mem_cons_of_mem _ ht'), fun a ha b hb heq => ?_⟩
    obtain ⟨p, hp, rfl⟩ := List.mem_map.mp ha
    obtain ⟨p', hp', rfl⟩ := List.mem_map.mp hb
    obtain ⟨t', ht', hp'⟩ := List.mem_flatMap.mp hp'
    have hsame := db.own t (hmem t List.mem_cons_self) t'
      (hmem t' (List.mem_cons_of_mem _ ht')) p hp p' hp' heq
    exact hnot (hsame ▸ ht')

/-- No property is merged twice. -/
theorem order_objects_nodup (htype : Built db.components type) (hclean : Clean db.components type)
    (horder : mergeOrder db.components type = .ok order) :
    ((order.flatMap Asttype.properties).map Property.object).Nodup := by
  obtain ⟨new, rfl, hnames, hbelow⟩ := mergeOrder_ok horder
  have hnew : ∀ t ∈ new, t ∈ db.components := fun t ht =>
    (Compile_ok (compile_of_below (hbelow t ht))).1
  have hdefinition : ∀ t, Compile db.components t.fullyname = .ok t → t ∉ new →
      (((new ++ [t]).flatMap Asttype.properties).map Property.object).Nodup := by
    intro t ht hnot
    refine objects_nodup db (List.nodup_append.mpr ⟨hnames.of_map _, List.nodup_singleton _,
      fun a ha b hb heq => hnot (by rw [← List.mem_singleton.mp hb, ← heq]; exact ha)⟩)
      fun t' ht' => ?_
    rcases List.mem_append.mp ht' with ht' | ht'
    · exact hnew t' ht'
    · rw [List.mem_singleton.mp ht']
      exact (Compile_ok ht).1
  cases htype with
  | definition h => exact hdefinition type h fun hin => hclean.not_back (hbelow type hin)
  | @clone original h n =>
    have hflat : ((new ++ [clone original n]).flatMap Asttype.properties) =
        (new ++ [original]).flatMap Asttype.properties := by
      rw [List.flatMap_append, List.flatMap_append]
      rfl
    rw [hflat]
    refine hdefinition original h fun hin => ?_
    obtain ⟨child, hchild, hrest⟩ := TransGen.head'_iff.mp (hbelow original hin)
    exact (hclean.of_extended rfl : Clean db.components original).not_back (.head' hchild hrest)
  | generated hextended hproperties =>
    have hnil : new = [] := by
      refine List.eq_nil_iff_forall_not_mem.mpr fun t ht => ?_
      obtain ⟨child, ⟨e, he, -⟩, -⟩ := TransGen.head'_iff.mp (hbelow t ht)
      rw [hextended] at he
      cases he
    rw [hnil, List.nil_append, List.flatMap_singleton, hproperties]
    exact List.nodup_nil

end Objects

section Simulated
variable {target : Target} {components : Components} {componentClass : ComponentClass}
  {depth : Nat} {cvalues : Nat → String} {b b' : Build}

/-- The properties of a build and all values. -/
def Build.merged (b : Build) : List Property × (Nat → String) := (b.component.properties, b.cvalues)

theorem Build.merged_addProperty (b : Build) (property : Property) :
    (b.addProperty property).merged = setProperty b.merged property := by
  unfold Build.addProperty setProperty Canonical.getProperty Build.merged
  dsimp only
  cases b.component.properties.find? (·.name = property.name) with
  | none => rfl
  | some origproperty => rfl

theorem Build.merged_addLocals (b : Build) (type : Asttype) :
    (b.addLocals type).merged = type.properties.foldl setProperty b.merged := by
  have hfold : ∀ (l : List Property) (b : Build),
      (l.foldl Build.addProperty b).merged = l.foldl setProperty b.merged := by
    intro l
    induction l with
    | nil => exact fun b => rfl
    | cons property l ih =>
      intro b
      rw [List.foldl_cons, List.foldl_cons, ih, b.merged_addProperty]
  exact hfold _ _

theorem Build.merged_addAttributes (parameters : Parameters) (l : List Attribute) (b : Build) :
    (l.foldl (Build.addAttribute parameters) b).merged = b.merged := by
  induction l generalizing b with
  | nil => rfl
  | cons declared l ih => exact ih _

theorem Build.merged_addOwn {m : Merge} (h : b.addOwn componentClass m = .ok b') :
    b'.merged = b.merged := by
  unfold Build.addOwn at h
  cases hkind : m.type.kind with
  | composite =>
    rw [hkind] at h
    cases h
    rfl
  | primitive =>
    rw [hkind] at h
    dsimp only at h
    split_ifs at h
    cases h
    exact Build.merged_addAttributes _ _ _
  | type =>
    rw [hkind] at h
    cases h
    rfl

theorem Build.merged_addRoot (b : Build) (m : Merge) :
    (b.addRoot target componentClass m).merged = b.merged := by
  unfold Build.addRoot
  cases componentClass with
  | composite => rfl
  | primitive =>
    dsimp only
    split_ifs
    · exact Build.merged_addAttributes _ _ (b.addOptions m.type)
    · exact Build.merged_addAttributes _ _ (b.addOptions m.type)
  | primitiveraw => rfl

/-- The build and the order of the definitions that it has merged. -/
def InOrder (cvalues : Nat → String) (b : Build) (s : List String × List Asttype) : Prop :=
  b.cumul = s.1 ∧ b.merged = merge cvalues (s.2.flatMap Asttype.properties)

theorem copy_simulated : Simulated (copyDescent target components componentClass depth)
    (mergeDescent components) Merge.type (InOrder cvalues) where
  edges m := rfl
  follow m b s e next h hfollow := by
    obtain ⟨hcumul, hmerged⟩ := h
    obtain ⟨implementsType, hfollowed, ⟨hin, rfl⟩ | ⟨hnot, -, rfl⟩⟩ := followExtend_ok hfollow
    · refine ⟨.inl s, ?_, .inl ⟨hcumul, hmerged⟩⟩
      change (Compile components e.type >>= _) = _
      rw [hfollowed.compile]
      rw [hcumul] at hin
      exact congrArg Except.ok (if_pos hin)
    · refine ⟨.inr (implementsType, (s.1 ++ [implementsType.fullyname], s.2)), ?_, ?_⟩
      · change (Compile components e.type >>= _) = _
        rw [hfollowed.compile]
        rw [hcumul] at hnot
        exact congrArg Except.ok (if_neg hnot)
      · have hfollows : Follows Merge.type (InOrder cvalues)
            (.inr (Merge.enter (m.stack ++ [implementsType.fullyname]) implementsType
              (e.compute m.templateparameters m.attributeparameters),
              { b with cumul := b.cumul ++ [implementsType.fullyname] }))
            (.inr ((Merge.enter (m.stack ++ [implementsType.fullyname]) implementsType
              (e.compute m.templateparameters m.attributeparameters)).type,
              (s.1 ++ [implementsType.fullyname], s.2))) :=
          .inr ⟨congrArg (· ++ [implementsType.fullyname]) hcumul, hmerged⟩
        rw [Merge.enter_type] at hfollows
        exact hfollows
  leave m e c b b' s s' u _ h hleave := by
    refine ⟨s', rfl, ?_, ?_⟩
    · rw [Build.addOwn_ok hleave]
      exact h.1
    · rw [Build.merged_addOwn hleave]
      exact h.2
  close m b s h := by
    refine ⟨(b.addLocals_cumul m.type).trans h.1, (b.merged_addLocals m.type).trans ?_⟩
    change _ = merge cvalues ((s.2 ++ [m.type]).flatMap Asttype.properties)
    rw [h.2, List.flatMap_append, List.flatMap_singleton]
    unfold merge
    rw [List.foldl_append]

end Simulated

section Builds
variable {target : Target} {db : Database} {componentClass : ComponentClass} {type : Asttype}
  {templates attributes : Option (List String)} {cvalues : Nat → String} {b : Build}

/-- A build merges the properties in the order of the definitions. -/
theorem build_merged
    (h : db.build target componentClass type templates attributes cvalues = .ok b) :
    ∃ order, mergeOrder db.components type = .ok order ∧
      b.merged = merge cvalues (order.flatMap Asttype.properties) := by
  unfold Database.build at h
  rw [createCanonical_eq] at h
  obtain ⟨_, -, h⟩ := Checks.bind_ok.mp h
  obtain ⟨b', hrun, h⟩ := Checks.bind_ok.mp h
  have hstart : InOrder cvalues (⟨[], .empty, cvalues⟩ : Build) ([], []) := ⟨rfl, rfl⟩
  have hsimulated : ∃ s, (mergeDescent db.components).run .unfinished
      (db.components.length + 1) type ([], []) = .ok s ∧ InOrder cvalues b' s :=
    copy_simulated.run _ hstart hrun
  obtain ⟨s, hs, hcumul, hmerged⟩ := hsimulated
  refine ⟨s.2, congrArg (Except.map Prod.snd) hs, ?_⟩
  rw [← Except.ok.inj h, Build.merged_addRoot]
  exact hmerged

/-- What a build leaves as it is. -/
theorem build_unchanged_iff (htype : Built db.components type)
    (h : db.build target componentClass type templates attributes cvalues = .ok b) :
    b.cvalues = cvalues ↔ ∀ order, mergeOrder db.components type = .ok order →
      ∀ name first last,
        (order.flatMap Asttype.properties).find? (·.name = name) = some first →
        (order.flatMap Asttype.properties).reverse.find? (·.name = name) = some last →
        cvalues first.object = cvalues last.object := by
  obtain ⟨order, horder, hmerged⟩ := build_merged h
  have hnodup := order_objects_nodup htype (createCanonical_clean h) horder
  have hvalues : b.cvalues = (merge cvalues (order.flatMap Asttype.properties)).2 :=
    congrArg Prod.snd hmerged
  rw [hvalues, merge_unchanged_iff hnodup]
  constructor
  · intro hall order' horder'
    rw [← Except.ok.inj (horder.symm.trans horder')]
    exact hall
  · exact fun hall => hall order horder

theorem reached_initial (hfirst : FirstIsLast target db) (h : Reached target db cvalues) :
    cvalues = db.initial := by
  induction h with
  | first => rfl
  | build _ htype hbuild ih =>
    rw [ih] at hbuild
    exact (build_unchanged_iff htype hbuild).mpr fun order horder =>
      hfirst _ _ _ _ _ order htype hbuild horder

end Builds

/-- Two primitives that extend a third one, of which one gives its property another value. -/
def siblings : Database where
  components := [{ samplePrimitive "P" [] with properties := [⟨"x", 0⟩] },
    { samplePrimitive "A" ["P"] with properties := [⟨"x", 1⟩] }, samplePrimitive "C" ["P"]]
  initial object := if object = 0 then "1" else "2"
  own := by decide
  each := by decide

end Codinalte.Conf
