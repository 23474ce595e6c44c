import Codinalte.Conf.Acceptance
import Codinalte.Conf.Sharing

/-! What a component is made of: the interfaces of all definitions below its own, each of them once
and behind those that it extends. -/

namespace Codinalte.Conf
open Codinalte.Recursion Relation

/-- In a list each definition stands behind all that it extends. -/
def Ordered (components : Components) (l : List Asttype) : Prop :=
  ∀ front t back, l = front ++ t :: back → ∀ child, Extends components t child → child ∈ front

section Ordered
variable {components : Components} {l : List Asttype} {t : Asttype}

theorem Ordered.concat (h : Ordered components l)
    (ht : ∀ child, Extends components t child → child ∈ l) : Ordered components (l ++ [t]) := by
  intro front t' back hl child hchild
  rcases List.eq_nil_or_concat back with rfl | ⟨back, last, rfl⟩
  · obtain ⟨rfl, hlast⟩ := List.append_inj' hl rfl
    obtain rfl := (List.cons.inj hlast).1
    exact ht child hchild
  · rw [List.concat_eq_append, ← List.cons_append, ← List.append_assoc] at hl
    obtain ⟨rfl, -⟩ := List.append_inj' hl rfl
    exact h front t' back rfl child hchild

theorem Ordered.below (h : Ordered components l) {t' : Asttype} (ht : t ∈ l)
    (hbelow : ReflTransGen (Extends components) t t') : t' ∈ l := by
  induction hbelow with
  | refl => exact ht
  | tail _ hchild ih =>
    obtain ⟨front, back, hl⟩ := List.append_of_mem ih
    rw [hl]
    exact List.mem_append_left _ (h front _ back hl _ hchild)

end Ordered

section Order
variable {components : Components}

/-- The definitions that were merged before a definition; the names that were come to are theirs, or
those of definitions that lead to it. -/
structure Before (components : Components) (f : Asttype) (s : List String × List Asttype) :
    Prop where
  ordered : Ordered components s.2
  compiled : ∀ t ∈ s.2, Compile components t.fullyname = .ok t
  names : ∀ name ∈ s.1, (∃ t ∈ s.2, t.fullyname = name) ∨
    ∃ t, Compile components name = .ok t ∧ ReflTransGen (Extends components) t f

theorem Before.merged {f child : Asttype} {s : List String × List Asttype}
    (h : Before components f s) (hclean : Clean components f) (hchild : Extends components f child)
    (hin : child.fullyname ∈ s.1) : child ∈ s.2 := by
  have hchild' := hchild
  obtain ⟨e, -, hcompile⟩ := hchild
  rcases h.names _ hin with ⟨t, ht, hname⟩ | ⟨t, ht, hback⟩
  · have htcompile := h.compiled t ht
    rw [hname] at htcompile
    rwa [Except.ok.inj ((Compile_name hcompile).symm.trans htcompile)]
  · obtain rfl := Except.ok.inj ((Compile_name hcompile).symm.trans ht)
    exact absurd (TransGen.head' hchild' hback) hclean.not_back

/-- The names that a part of the merge has come to are of definitions that are merged now. -/
def Settled (s s' : List String × List Asttype) : Prop :=
  ∀ name ∈ s'.1, name ∈ s.1 ∨ ∃ t ∈ s'.2, t.fullyname = name

theorem before_rule : Rule (mergeDescent components) .unfinished
    (fun f s => Clean components f ∧ Before components f s)
    (fun f s s' => ∃ new, s'.2 = s.2 ++ new ++ [f] ∧ Ordered components s'.2 ∧
      (∀ t ∈ s.2 ++ new, Compile components t.fullyname = .ok t) ∧ Settled s s')
    (fun f s₀ done s => (∃ new, s.2 = s₀.2 ++ new) ∧ Before components f s ∧ Settled s₀ s ∧
      ∀ e ∈ done, ∀ child, Compile components e.type = .ok child → child ∈ s.2)
    (fun _ => True) where
  unfinished := trivial
  enter f s hpre := ⟨⟨[], (List.append_nil _).symm⟩, hpre.2, fun _ h => .inl h,
  fun _ h => nomatch h⟩
  follow f s₀ done e rest s hpre hl hJ := by
    obtain ⟨⟨new, hnew⟩, hbefore, hsettled, hdone⟩ := hJ
    obtain ⟨hclean, -⟩ := hpre
    change Outcome _ _ (Compile components e.type >>= _)
    cases hcompile : Compile components e.type with
    | error failure => trivial
    | ok child =>
      have hl : f.extended = done ++ e :: rest := hl
      have hchild : Extends components f child :=
        ⟨e, hl ▸ List.mem_append_right _ List.mem_cons_self, hcompile⟩
      have honward : ∀ l : List Asttype, (∀ t ∈ s.2, t ∈ l) → child ∈ l → ∀ e' ∈ done ++ [e],
          ∀ child', Compile components e'.type = .ok child' → child' ∈ l := by
        intro l hsub hin e' he' child' hchild'
        rcases List.mem_append.mp he' with he' | he'
        · exact hsub _ (hdone e' he' child' hchild')
        · cases List.mem_singleton.mp he'
          cases hcompile.symm.trans hchild'
          exact hin
      change Outcome _ _ (Except.ok (if _ then _ else _))
      split_ifs with hin
      · exact ⟨⟨new, hnew⟩, hbefore, hsettled,
          honward _ (fun _ h => h) (hbefore.merged hclean hchild hin)⟩
      · refine ⟨⟨hclean.inv hchild, hbefore.ordered, hbefore.compiled, fun name hname => ?_⟩,
          fun s' hpost => ?_⟩
        · rcases List.mem_append.mp hname with hname | hname
          · exact (hbefore.names name hname).imp_right fun ⟨t, ht, hback⟩ =>
              ⟨t, ht, hback.tail hchild⟩
          · rw [List.mem_singleton.mp hname]
            exact .inr ⟨child, Compile_name hcompile, .refl⟩
        · obtain ⟨new', hs', hordered, hcompiled, hsettled'⟩ := hpost
          have hsub : ∀ t ∈ s.2, t ∈ s'.2 := by
            intro t ht
            rw [hs', List.append_assoc]
            exact List.mem_append_left _ ht
          have hin' : child ∈ s'.2 := by
            rw [hs']
            exact List.mem_append_right _ List.mem_cons_self
          have hnames : ∀ name ∈ s'.1, name ∈ s.1 ∨ ∃ t ∈ s'.2, t.fullyname = name := by
            intro name hname
            rcases hsettled' name hname with hname | hmerged
            · rcases List.mem_append.mp hname with hname | hname
              · exact .inl hname
              · exact .inr ⟨child, hin', (List.mem_singleton.mp hname).symm⟩
            · exact .inr hmerged
          refine ⟨⟨new ++ new' ++ [child], ?_⟩, ⟨hordered, fun t ht => ?_, fun name hname => ?_⟩,
            fun name hname => ?_, honward _ hsub hin'⟩
          · rw [hs', hnew]
            simp only [List.append_assoc]
          · rw [hs'] at ht
            rcases List.mem_append.mp ht with ht | ht
            · exact hcompiled t ht
            · rw [List.mem_singleton.mp ht]
              exact Compile_name hcompile
          · rcases hnames name hname with hname | hmerged
            · exact (hbefore.names name hname).imp_left fun ⟨t, ht, heq⟩ => ⟨t, hsub t ht, heq⟩
            · exact .inl hmerged
          · rcases hnames name hname with hname | hmerged
            · exact (hsettled name hname).imp_right fun ⟨t, ht, heq⟩ => ⟨t, hsub t ht, heq⟩
            · exact .inr hmerged
  close f s₀ s hpre hJ := by
    obtain ⟨⟨new, hnew⟩, hbefore, hsettled, hdone⟩ := hJ
    refine ⟨new, congrArg (· ++ [f]) hnew, hbefore.ordered.concat ?_, hnew ▸ hbefore.compiled,
      fun name hname => ?_⟩
    · rintro child ⟨e, he, hcompile⟩
      exact hdone e he child hcompile
    · exact (hsettled name hname).imp_right fun ⟨t, ht, heq⟩ =>
        ⟨t, List.mem_append_left _ ht, heq⟩

/-- The definitions are merged in an order in which each stands behind all that it extends: all
that is below the definition of the component, each of them once, and that definition. -/
theorem mergeOrder_ordered {type : Asttype} {order : List Asttype} (hclean : Clean components type)
    (h : mergeOrder components type = .ok order) :
    Ordered components order ∧ order.Nodup ∧
      ∀ t, t ∈ order ↔ ReflTransGen (Extends components) type t := by
  have hsplit := mergeOrder_ok h
  unfold mergeOrder at h
  cases hrun : (mergeDescent components).run .unfinished (components.length + 1) type ([], []) with
  | error failure =>
    rw [hrun] at h
    cases h
  | ok s =>
    rw [hrun] at h
    obtain rfl := Except.ok.inj h
    have hstart : Before components type ([], []) :=
      ⟨fun front t back hl => by simp at hl, (fun _ h => nomatch h), fun _ h => nomatch h⟩
    obtain ⟨new, hs, hordered, -, -⟩ := (before_rule.run _ ⟨hclean, hstart⟩).ok hrun
    obtain ⟨new', hs', hnodup, hbelow⟩ := hsplit
    have hlast : type ∈ s.2 := hs ▸ List.mem_append_right _ List.mem_cons_self
    refine ⟨hordered, ?_, fun t => ⟨fun ht => ?_, fun ht => hordered.below hlast ht⟩⟩
    · rw [hs']
      refine List.nodup_append.mpr ⟨hnodup.of_map, List.nodup_singleton _, fun a ha b hb heq => ?_⟩
      rw [heq, List.mem_singleton.mp hb] at ha
      exact hclean.not_back (hbelow _ ha)
    · rw [hs'] at ht
      rcases List.mem_append.mp ht with ht | ht
      · exact (hbelow t ht).to_reflTransGen
      · rw [List.mem_singleton.mp ht]

end Order

section Interfaces
variable {target : Target} {components : Components} {componentClass : ComponentClass}
  {depth : Nat} {b b' : Build}

def Build.interfaces (b : Build) : List Graph.Require × List Graph.Provide :=
  (b.component.requires, b.component.provides)

theorem Build.interfaces_addLocals (b : Build) (type : Asttype) :
    (b.addLocals type).interfaces =
      (b.component.requires ++ type.requires, b.component.provides ++ type.provides) := by
  have hproperty : ∀ (b : Build) (property : Property),
      (b.addProperty property).interfaces = b.interfaces := by
    intro b property
    unfold Build.addProperty
    split <;> rfl
  have hfold : ∀ (l : List Property) (b : Build),
      (l.foldl Build.addProperty b).interfaces = b.interfaces := by
    intro l
    induction l with
    | nil => exact fun b => rfl
    | cons property l ih => exact fun b => (ih _).trans (hproperty b property)
  exact hfold _ _

theorem Build.interfaces_addAttributes (parameters : Parameters) (l : List Attribute) (b : Build) :
    (l.foldl (Build.addAttribute parameters) b).interfaces = b.interfaces := by
  induction l generalizing b with
  | nil => rfl
  | cons declared l ih => exact ih _

theorem Build.interfaces_addOwn {m : Merge} (h : b.addOwn componentClass m = .ok b') :
    b'.interfaces = b.interfaces := by
  unfold Build.addOwn at h
  cases hkind : m.type.kind with
  | primitive =>
    rw [hkind] at h
    dsimp only at h
    split_ifs at h
    cases h
    exact Build.interfaces_addAttributes _ _ (b.addOptions m.type)
  | _ =>
    rw [hkind] at h
    cases h
    rfl

/-- What every primitive on an MPC requires beside its definitions. -/
def intrinsic (target : Target) (componentClass : ComponentClass) : List Graph.Require :=
  if componentClass = .primitive ∧ target.domain = .mmdsp then [runtime] else []

theorem Build.interfaces_addRoot (b : Build) (m : Merge) :
    (b.addRoot target componentClass m).interfaces =
      (b.component.requires ++ intrinsic target componentClass, b.component.provides) := by
  unfold Build.addRoot intrinsic
  cases componentClass with
  | composite => exact congrArg (·, _) (List.append_nil _).symm
  | primitiveraw => exact congrArg (·, _) (List.append_nil _).symm
  | primitive =>
    have hattributes := Build.interfaces_addAttributes (m.attributeparameters.getD [])
      m.type.attributes (b.addOptions m.type)
    simp only [true_and]
    split_ifs
    · exact congrArg (fun p => (p.1 ++ [runtime], p.2)) hattributes
    · rw [List.append_nil]
      exact hattributes

/-- The build and the interfaces of the definitions that it has merged. -/
def WithInterfaces (b : Build) (s : List String × List Asttype) : Prop :=
  b.cumul = s.1 ∧ b.interfaces = (s.2.flatMap Asttype.requires, s.2.flatMap Asttype.provides)

theorem interfaces_simulated : Simulated (copyDescent target components componentClass depth)
    (mergeDescent components) Merge.type WithInterfaces where
  edges m := rfl
  follow m b s e next h hfollow := by
    obtain ⟨hcumul, hinterfaces⟩ := h
    obtain ⟨child, hfollowed, ⟨hin, rfl⟩ | ⟨hnot, -, rfl⟩⟩ := followExtend_ok hfollow
    · refine ⟨.inl s, ?_, .inl ⟨hcumul, hinterfaces⟩⟩
      change (Compile components e.type >>= _) = _
      rw [hfollowed.compile]
      rw [hcumul] at hin
      exact congrArg Except.ok (if_pos hin)
    · refine ⟨.inr (child, (s.1 ++ [child.fullyname], s.2)), ?_, ?_⟩
      · change (Compile components e.type >>= _) = _
        rw [hfollowed.compile]
        rw [hcumul] at hnot
        exact congrArg Except.ok (if_neg hnot)
      · have hfollows : Recursion.Follows Merge.type WithInterfaces
            (.inr (Merge.enter (m.stack ++ [child.fullyname]) child
              (e.compute m.templateparameters m.attributeparameters),
              { b with cumul := b.cumul ++ [child.fullyname] }))
            (.inr ((Merge.enter (m.stack ++ [child.fullyname]) child
              (e.compute m.templateparameters m.attributeparameters)).type,
              (s.1 ++ [child.fullyname], s.2))) :=
          .inr ⟨congrArg (· ++ [child.fullyname]) hcumul, hinterfaces⟩
        rw [Merge.enter_type] at hfollows
        exact hfollows
  leave m e _ b b' s s' u _ h hleave := by
    refine ⟨s', rfl, ?_, ?_⟩
    · rw [Build.addOwn_ok hleave]
      exact h.1
    · rw [Build.interfaces_addOwn hleave]
      exact h.2
  close m b s h := by
    refine ⟨(b.addLocals_cumul m.type).trans h.1, (b.interfaces_addLocals m.type).trans ?_⟩
    change _ = ((s.2 ++ [m.type]).flatMap Asttype.requires,
      (s.2 ++ [m.type]).flatMap Asttype.provides)
    obtain ⟨hrequires, hprovides⟩ := Prod.mk.inj h.2
    rw [List.flatMap_append, List.flatMap_append, List.flatMap_singleton, List.flatMap_singleton,
      hrequires, hprovides]

/-- A component that is built requires and provides what the definitions below its own do and that
definition does, each of them once and behind all that it extends, and of the properties of one name
it has the first. -/
theorem createCanonical_merges {target : Target} {components : Components}
    {componentClass : ComponentClass} {depth : Nat} (hdepth : components.length < depth)
    {type : Asttype} {templates attributes : Option (List String)} {cvalues : Nat → String}
    {b : Build} (h : createCanonical target components depth componentClass type templates attributes
      cvalues = .ok b) :
    ∃ order, Ordered components order ∧ order.Nodup ∧
      (∀ t, t ∈ order ↔ ReflTransGen (Extends components) type t) ∧
      b.component.requires =
        order.flatMap Asttype.requires ++ intrinsic target componentClass ∧
      b.component.provides = order.flatMap Asttype.provides ∧
      ∀ name, b.component.getProperty name =
        (order.flatMap Asttype.properties).find? (·.name = name) := by
  have hclean := createCanonical_clean h
  rw [createCanonical_settled hdepth, createCanonical_eq] at h
  obtain ⟨_, -, h⟩ := Checks.bind_ok.mp h
  obtain ⟨b', hrun, h⟩ := Checks.bind_ok.mp h
  obtain rfl := Except.ok.inj h
  have hinterfaces : ∃ s, (mergeDescent components).run .unfinished (components.length + 1) type
      ([], []) = .ok s ∧ WithInterfaces b' s := interfaces_simulated.run _ ⟨rfl, rfl⟩ hrun
  have hproperties : ∃ s, (mergeDescent components).run .unfinished (components.length + 1) type
      ([], []) = .ok s ∧ InOrder cvalues b' s := copy_simulated.run _ ⟨rfl, rfl⟩ hrun
  obtain ⟨s, hs, -, hinterfaces⟩ := hinterfaces
  obtain ⟨s', hs', -, hmerged⟩ := hproperties
  obtain rfl := Except.ok.inj (hs.symm.trans hs')
  obtain ⟨hrequires, hprovides⟩ := Prod.mk.inj hinterfaces
  obtain ⟨hordered, hnodup, hmem⟩ := mergeOrder_ordered hclean (congrArg (Except.map Prod.snd) hs)
  have hroot : (b'.addRoot target componentClass
      (Merge.root componentClass type templates attributes)).interfaces = _ :=
    b'.interfaces_addRoot _
  obtain ⟨hrequires', hprovides'⟩ := Prod.mk.inj hroot
  refine ⟨s.2, hordered, hnodup, hmem, ?_, ?_, fun name => ?_⟩
  · rw [hrequires', hrequires]
  · rw [hprovides', hprovides]
  · have hmerged' : (b'.addRoot target componentClass
        (Merge.root componentClass type templates attributes)).merged = _ :=
      (b'.merged_addRoot _).trans hmerged
    have hfirst := congrArg Prod.fst hmerged'
    refine (congrArg (List.find? (·.name = name)) hfirst).trans ?_
    exact find_merge name

end Interfaces

/-- A definition that extends the same one along two ways. -/
def diamond : Components :=
  [{ samplePrimitive "Top" [] with requires := [runtime] }, samplePrimitive "Left" ["Top"],
    samplePrimitive "Right" ["Top"], samplePrimitive "Both" ["Left", "Right"]]

theorem createCanonical_merges_sample : ∃ (b : Build) (order : List Asttype), createCanonical
      { sampleTarget with domain := .embeddedC } diamond 5 .primitive
      (samplePrimitive "Both" ["Left", "Right"]) none none (fun _ => "") = .ok b ∧
    order.Nodup ∧ b.component.requires = order.flatMap Asttype.requires ++ [] ∧
    b.component.requires.length = 1 := by
  have hbuild : createCanonical { sampleTarget with domain := .embeddedC } diamond 5 .primitive
      (samplePrimitive "Both" ["Left", "Right"]) none none (fun _ => "") = .ok _ := rfl
  obtain ⟨order, -, hnodup, -, hrequires, -⟩ := createCanonical_merges (by decide) hbuild
  exact ⟨_, order, hbuild, hnodup, hrequires, rfl⟩

end Codinalte.Conf
