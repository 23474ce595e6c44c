import Codinalte.Conf.Loops
import Mathlib.Data.List.Forall2

/-! Which arguments a definition accepts, and which components can be built: those for which all
clauses on the way fit as they are written. -/

namespace Codinalte.Conf
open Codinalte.Recursion Relation

section Extended
variable (components : Components)

/-- All clauses from a definition on name a definition that is there. -/
def Resolved (type : Asttype) : Prop :=
  ∀ t, ReflTransGen (Extends components) type t → ∀ e ∈ t.extended,
    ∃ child, Compile components e.type = .ok child

variable {components}

theorem Resolved.child {type child : Asttype} (h : Resolved components type)
    (hchild : Extends components type child) : Resolved components child :=
  fun t ht => h t (.head hchild ht)

/-- The names in `names` are of definitions below `f`, and what these extend is in `all`. -/
structure Found (components : Components) (f : Asttype) (names all : List String) : Prop where
  below : ∀ name ∈ names, ∃ t, TransGen (Extends components) f t ∧ t.fullyname = name
  closed : ∀ name ∈ names, ∀ t, Compile components name = .ok t → ∀ e ∈ t.extended,
    ∃ child, Compile components e.type = .ok child ∧ child.fullyname ∈ all

theorem Found.mono {f : Asttype} {names all all' : List String} (h : Found components f names all)
    (hall : ∀ name ∈ all, name ∈ all') : Found components f names all' :=
  ⟨h.below, fun name hname t ht e he =>
    (h.closed name hname t ht e he).imp fun _ hchild => ⟨hchild.1, hall _ hchild.2⟩⟩

theorem extended_rule : Rule (extendDescent components) .unfinished (fun _ _ => True)
    (fun f s s' => ∃ names, s' = s ++ names ∧ Found components f names s' ∧
      ∀ e ∈ f.extended, ∃ child, Compile components e.type = .ok child ∧ child.fullyname ∈ s')
    (fun f s₀ done s => ∃ names, s = s₀ ++ names ∧ Found components f names s ∧
      ∀ e ∈ done, ∃ child, Compile components e.type = .ok child ∧ child.fullyname ∈ s)
    (fun _ => True) where
  unfinished := trivial
  enter f s _ := ⟨[], (List.append_nil s).symm,
    ⟨fun name h => absurd h List.not_mem_nil, fun name h => absurd h List.not_mem_nil⟩,
    fun e h => absurd h List.not_mem_nil⟩
  follow f s₀ done e rest s _ hl hJ := by
    obtain ⟨names, rfl, hfound, hdone⟩ := hJ
    have hl : f.extended = done ++ e :: rest := hl
    change Outcome _ _ (Compile components e.type >>= _)
    cases hcompile : Compile components e.type with
    | error failure => trivial
    | ok child =>
      have hchild : Extends components f child :=
        ⟨e, hl ▸ List.mem_append_right _ List.mem_cons_self, hcompile⟩
      have honward : ∀ s : List String, (∀ name ∈ s₀ ++ names, name ∈ s) → child.fullyname ∈ s →
          ∀ e' ∈ done ++ [e], ∃ child, Compile components e'.type = .ok child ∧
            child.fullyname ∈ s := by
        intro s hs hin e' he'
        rcases List.mem_append.mp he' with he' | he'
        · exact (hdone e' he').imp fun _ h => ⟨h.1, hs _ h.2⟩
        · rw [List.mem_singleton.mp he']
          exact ⟨child, hcompile, hin⟩
      change Outcome _ _ (Except.ok (if _ then _ else _))
      split_ifs with hin
      · exact ⟨names, rfl, hfound, honward _ (fun _ h => h) hin⟩
      · refine ⟨trivial, fun s' hpost => ?_⟩
        obtain ⟨names', rfl, hfound', hedges⟩ := hpost
        have hgrow : ∀ name ∈ s₀ ++ names, name ∈ s₀ ++ names ++ [child.fullyname] ++ names' :=
          fun name hname => List.mem_append_left _ (List.mem_append_left _ hname)
        refine ⟨names ++ (child.fullyname :: names'), ?_, ⟨?_, ?_⟩, honward _ hgrow
          (List.mem_append_left _ (List.mem_append_right _ List.mem_cons_self))⟩
        · simp only [List.append_assoc, List.cons_append, List.nil_append]
        · intro name hname
          rcases List.mem_append.mp hname with hname | hname
          · exact hfound.below name hname
          · rcases List.mem_cons.mp hname with rfl | hname
            · exact ⟨child, .single hchild, rfl⟩
            · exact (hfound'.below name hname).imp fun _ h => ⟨.head hchild h.1, h.2⟩
        · intro name hname
          rcases List.mem_append.mp hname with hname | hname
          · exact (hfound.mono hgrow).closed name hname
          · rcases List.mem_cons.mp hname with rfl | hname
            · intro t ht
              obtain rfl : child = t := Except.ok.inj ((Compile_name hcompile).symm.trans ht)
              exact hedges
            · exact hfound'.closed name hname
  close f s₀ s _ hJ := hJ

/-- What is computed are the names of all that is below. -/
theorem computeExtend_ok {calls : Nat} {type : Asttype} {extended : List String}
    (h : computeExtend components calls type [] = .ok extended) :
    Resolved components type ∧ ∀ name, name ∈ extended ↔
      ∃ t, TransGen (Extends components) type t ∧ t.fullyname = name := by
  rw [computeExtend_eq] at h
  obtain ⟨names, hnames, hfound, hedges⟩ := (extended_rule.run calls trivial).ok h
  rw [List.nil_append] at hnames
  subst hnames
  have hbelow : ∀ t, TransGen (Extends components) type t → t.fullyname ∈ extended ∧
      Compile components t.fullyname = .ok t := by
    intro t ht
    induction ht with
    | single hchild =>
      obtain ⟨e, he, hcompile⟩ := hchild
      obtain ⟨child, hchild, hin⟩ := hedges e he
      obtain rfl := Except.ok.inj (hcompile.symm.trans hchild)
      exact ⟨hin, Compile_name hcompile⟩
    | tail _ hchild ih =>
      obtain ⟨e, he, hcompile⟩ := hchild
      obtain ⟨child, hchild, hin⟩ := hfound.closed _ ih.1 _ ih.2 e he
      obtain rfl := Except.ok.inj (hcompile.symm.trans hchild)
      exact ⟨hin, Compile_name hcompile⟩
  refine ⟨fun t ht e he => ?_, fun name => ⟨hfound.below name, ?_⟩⟩
  · rcases ReflTransGen.cases_head ht with rfl | ⟨child, hchild, hrest⟩
    · exact (hedges e he).imp fun _ h => h.1
    · obtain ⟨hin, hcompile⟩ := hbelow t (.head' hchild hrest)
      exact (hfound.closed _ hin t hcompile e he).imp fun _ h => h.1
  · rintro ⟨t, ht, rfl⟩
    exact (hbelow t ht).1

/-- Nothing but a clause that is not resolved keeps it from an end. -/
theorem resolved_rule : Rule (extendDescent components) .unfinished
    (fun f _ => Resolved components f) (fun _ _ _ => True) (fun _ _ _ _ => True)
    (· = .unfinished) where
  unfinished := rfl
  enter _ _ _ := trivial
  follow f s₀ done e rest s hpre hl _ := by
    have hl : f.extended = done ++ e :: rest := hl
    have he : e ∈ f.extended := hl ▸ List.mem_append_right _ List.mem_cons_self
    obtain ⟨child, hcompile⟩ := hpre f .refl e he
    change Outcome _ _ (Compile components e.type >>= _)
    rw [hcompile]
    change Outcome _ _ (Except.ok (if _ then _ else _))
    split_ifs
    · trivial
    · exact ⟨hpre.child ⟨e, he, hcompile⟩, fun _ _ => trivial⟩
  close _ _ _ _ _ := trivial

theorem exists_computeExtend {calls : Nat} (hcalls : components.length < calls) {type : Asttype}
    (h : Resolved components type) : ∃ extended, computeExtend components calls type [] =
      .ok extended := by
  have hrun := resolved_rule.run calls (s := []) h
  rw [← computeExtend_eq] at hrun
  cases hcompute : computeExtend components calls type [] with
  | ok extended => exact ⟨extended, rfl⟩
  | error failure =>
    have hends : computeExtend components calls type [] ≠ .error .unfinished :=
      (computeExtend_ends hcalls type []).ne
    exact absurd (hcompute.trans (congrArg Except.error (hrun.error hcompute))) hends

end Extended

section Arguments
variable (target : Target) (components : Components)

/-- A definition that is written for a parameter extends the type of the parameter. -/
def TemplateFits (declaration : Parameter) (definition : String) : Prop :=
  ∃ paramType, Compile components definition = .ok paramType ∧ Resolved components paramType ∧
    ∃ t, TransGen (Extends components) paramType t ∧ t.fullyname = declaration.type

def ValueFits (declaration : Parameter) (definition : String) : Prop :=
  checkValue target.sizeOfWord (some declaration.type) definition = .ok ()

/-- The arguments that fit the parameters of a definition. -/
def ArgumentsFit (implementsType : Asttype) (templates attributes : List String) : Prop :=
  match implementsType.kind with
  | .composite =>
    List.Forall₂ (TemplateFits components) implementsType.templateparameters templates ∧
      List.Forall₂ (ValueFits target) implementsType.attributeparameters attributes
  | .primitive =>
    templates = [] ∧ List.Forall₂ (ValueFits target) implementsType.attributeparameters attributes
  | .type => templates = [] ∧ attributes = []

variable {target components} {calls : Nat}

theorem checkTemplate_ok (hcalls : components.length < calls) {declaration : Parameter}
    {definition : String} {i : Nat} :
    checkTemplate components calls declaration definition i = .ok () ↔
      TemplateFits components declaration definition := by
  unfold checkTemplate TemplateFits
  rw [Checks.bind_ok]
  refine exists_congr fun paramType => and_congr_right fun _ => ?_
  rw [Checks.bind_ok]
  constructor
  · rintro ⟨extended, hextended, hthrow⟩
    obtain ⟨hresolved, hmem⟩ := computeExtend_ok hextended
    have hin : declaration.type ∈ extended := by simpa using throwIf_ok.mp hthrow
    exact ⟨hresolved, (hmem _).mp hin⟩
  · rintro ⟨hresolved, hbelow⟩
    obtain ⟨extended, hextended⟩ := exists_computeExtend hcalls hresolved
    refine ⟨extended, hextended, throwIf_ok.mpr ?_⟩
    simpa using ((computeExtend_ok hextended).2 _).mpr hbelow

theorem checkTemplates_ok (hcalls : components.length < calls) {declarations : List Parameter}
    {definitions : List String} (hlength : declarations.length = definitions.length) {i : Nat} :
    checkTemplates components calls declarations definitions i = .ok () ↔
      List.Forall₂ (TemplateFits components) declarations definitions := by
  induction declarations generalizing definitions i with
  | nil =>
    cases definitions with
    | nil => exact iff_of_true rfl .nil
    | cons => cases hlength
  | cons declaration declarations ih =>
    cases definitions with
    | nil => cases hlength
    | cons definition definitions =>
      unfold checkTemplates
      rw [Checks.seq_ok, checkTemplate_ok hcalls, ih (Nat.succ.inj hlength), List.forall₂_cons]

theorem checkValues_ok {declarations : List Parameter} {definitions : List String}
    (hlength : declarations.length = definitions.length) :
    checkValues target.sizeOfWord declarations definitions = .ok () ↔
      List.Forall₂ (ValueFits target) declarations definitions := by
  induction declarations generalizing definitions with
  | nil =>
    cases definitions with
    | nil => exact iff_of_true rfl .nil
    | cons => cases hlength
  | cons declaration declarations ih =>
    cases definitions with
    | nil => cases hlength
    | cons definition definitions =>
      unfold checkValues
      rw [Checks.seq_ok, ih (Nat.succ.inj hlength), List.forall₂_cons]
      rfl

/-- The number and the values of the attributes. -/
theorem checkAttributes_ok {implementsType : Asttype} {attributes : Option (List String)} :
    (do checkAttributeNumber implementsType attributes
        checkValues target.sizeOfWord implementsType.attributeparameters (attributes.getD [])) =
      .ok () ↔
      List.Forall₂ (ValueFits target) implementsType.attributeparameters (attributes.getD []) := by
  rw [Checks.seq_ok]
  unfold checkAttributeNumber
  rw [throwIf_ok]
  constructor
  · rintro ⟨hnumber, hvalues⟩
    exact (checkValues_ok (by simpa using hnumber)).mp hvalues
  · intro h
    exact ⟨by simpa using h.length_eq, (checkValues_ok h.length_eq).mpr h⟩

theorem checkTemplateNumber_ok {implementsType : Asttype} {templates : Option (List String)} :
    checkTemplateNumber implementsType templates = .ok () ↔
      implementsType.templateparameters.length = (templates.getD []).length := by
  cases templates with
  | none =>
    unfold checkTemplateNumber
    by_cases hnone : implementsType.templateparameters.length = 0
    · rw [if_neg (not_not.mpr hnone)]
      exact iff_of_true rfl hnone
    · rw [if_pos hnone]
      exact iff_of_false (fun h => nomatch h) hnone
  | some definitions =>
    unfold checkTemplateNumber
    rw [throwIf_ok]
    simp

/-- The check accepts exactly the arguments that fit, as they are written. -/
theorem checkDefinition_ok (hcalls : components.length < calls) {implementsType : Asttype}
    {templates attributes : Option (List String)} :
    checkDefinition components target calls implementsType templates attributes = .ok () ↔
      ArgumentsFit target components implementsType (templates.getD []) (attributes.getD []) := by
  unfold checkDefinition ArgumentsFit
  cases implementsType.kind with
  | composite =>
    simp only
    rw [Checks.seq_ok, checkTemplateNumber_ok, Checks.seq_ok, checkAttributes_ok]
    constructor
    · rintro ⟨hnumber, htemplates, hattributes⟩
      exact ⟨(checkTemplates_ok hcalls hnumber).mp htemplates, hattributes⟩
    · rintro ⟨htemplates, hattributes⟩
      exact ⟨htemplates.length_eq, (checkTemplates_ok hcalls htemplates.length_eq).mpr htemplates,
        hattributes⟩
  | primitive =>
    simp only
    rw [Checks.seq_ok, checkAttributes_ok, throwIf_ok]
    simp
  | type =>
    simp only
    rw [Checks.seq_ok, throwIf_ok, throwIf_ok]
    simp

end Arguments

section Accepts
variable (target : Target) (components : Components) (componentClass : ComponentClass)

/-- The kinds of definitions that a component of a class may extend. -/
def KindFits : ComponentClass → Kind → Prop
  | .composite, kind => kind ≠ .primitive
  | .primitive, kind => kind ≠ .composite
  | .primitiveraw, kind => kind = .type

/-- A clause that a definition may be extended by, whatever arguments the definition is given. -/
structure ClauseFits (t : Asttype) (e : Definition) (child : Asttype) : Prop where
  once : (t.extended.filter (·.type = e.type)).length = 1
  compile : Compile components e.type = .ok child
  arguments : ArgumentsFit target components child e.templates e.attributes
  kind : KindFits componentClass child.kind

/-- All clauses from a definition on fit. -/
def ClausesFit (type : Asttype) : Prop :=
  ∀ t, ReflTransGen (Extends components) type t → ∀ e ∈ t.extended,
    ∃ child, ClauseFits target components componentClass t e child

variable {target components componentClass} {depth : Nat}

theorem ClausesFit.child {type child : Asttype}
    (h : ClausesFit target components componentClass type) (hchild : Extends components type child) :
    ClausesFit target components componentClass child :=
  fun t ht => h t (.head hchild ht)

theorem ClausesFit.of_children {type : Asttype} (h : ∀ e ∈ type.extended, ∃ child,
      ClauseFits target components componentClass type e child ∧
        ClausesFit target components componentClass child) :
    ClausesFit target components componentClass type := by
  intro t ht e he
  rcases ReflTransGen.cases_head ht with rfl | ⟨child, ⟨e', he', hcompile⟩, hrest⟩
  · exact (h e he).imp fun _ h => h.1
  · obtain ⟨child', hclause, hbelow⟩ := h e' he'
    obtain rfl := Except.ok.inj (hcompile.symm.trans hclause.compile)
    exact hbelow t hrest e he

theorem checkKind_ok {kind : Kind} (h : KindFits componentClass kind) :
    checkKind componentClass kind = .ok () := by
  unfold KindFits at h
  unfold checkKind
  cases componentClass <;> cases kind <;> first | rfl | cases h | exact absurd rfl h

theorem kindFits_of_ok {m : Merge} {b b' : Build}
    (hkind : checkKind componentClass m.type.kind = .ok ())
    (hown : b.addOwn componentClass m = .ok b') : KindFits componentClass m.type.kind := by
  cases componentClass with
  | composite =>
    intro hprimitive
    rw [hprimitive] at hkind
    cases hkind
  | primitive =>
    intro hcomposite
    rw [hcomposite] at hkind
    cases hkind
  | primitiveraw =>
    unfold Build.addOwn at hown
    cases hmkind : m.type.kind with
    | type => rfl
    | composite =>
      rw [hmkind] at hkind
      cases hkind
    | primitive =>
      rw [hmkind] at hown
      cases hown

theorem exists_addOwn {m : Merge} {b : Build} (h : KindFits componentClass m.type.kind) :
    ∃ b', b.addOwn componentClass m = .ok b' := by
  unfold Build.addOwn
  cases hkind : m.type.kind with
  | composite => exact ⟨_, rfl⟩
  | type => exact ⟨_, rfl⟩
  | primitive =>
    rw [hkind] at h
    have hraw : componentClass ≠ .primitiveraw := by
      rintro rfl
      cases h
    exact ⟨_, if_neg hraw⟩

/-- What is known of the names that were merged: their definitions can be extended, and apart from
those that are still open, all clauses from them on fit. -/
structure MergedFit (target : Target) (components : Components) (componentClass : ComponentClass)
    (m : Merge) (b : Build) : Prop where
  opened : ∀ name ∈ m.stack, name ∈ b.cumul
  closed : ∀ name ∈ b.cumul, name ∉ m.stack → ∀ type, Compile components name = .ok type →
    KindFits componentClass type.kind ∧ ClausesFit target components componentClass type

theorem MergedFit.congr {m : Merge} {b b' : Build}
    (h : MergedFit target components componentClass m b) (heq : b'.cumul = b.cumul) :
    MergedFit target components componentClass m b' :=
  ⟨fun name hn => heq ▸ h.opened name hn, fun name hn => h.closed name (heq ▸ hn)⟩

/-- A build without an error has met no clause that does not fit. -/
theorem fits_rule (hdepth : components.length < depth) :
    Rule (copyDescent target components componentClass depth) .unfinished
      (fun m b => MergedFit target components componentClass m b)
      (fun m _ b' => MergedFit target components componentClass m b' ∧
        ClausesFit target components componentClass m.type)
      (fun m _ done b => MergedFit target components componentClass m b ∧
        ∀ e ∈ done, ∃ child, ClauseFits target components componentClass m.type e child ∧
          ClausesFit target components componentClass child)
      (fun _ => True) where
  unfinished := trivial
  enter m b h := ⟨h, fun _ h => nomatch h⟩
  follow m b₀ done e rest b hpre hl hJ := by
    obtain ⟨hmerged, hdone⟩ := hJ
    have honward : ∀ child, ClauseFits target components componentClass m.type e child →
        ClausesFit target components componentClass child → ∀ e' ∈ done ++ [e], ∃ child,
          ClauseFits target components componentClass m.type e' child ∧
            ClausesFit target components componentClass child := by
      intro child hclause hbelow e' he'
      rcases List.mem_append.mp he' with he' | he'
      · exact hdone e' he'
      · cases List.mem_singleton.mp he'
        exact ⟨child, hclause, hbelow⟩
    match h : followExtend target components componentClass depth m b e with
    | .error failure =>
      rw [show (copyDescent target components componentClass depth).follow m b e = _ from h]
      trivial
    | .ok next =>
      rw [show (copyDescent target components componentClass depth).follow m b e = _ from h]
      obtain ⟨child, hfollowed, hnext⟩ := followExtend_ok h
      have harguments := (checkDefinition_ok hdepth).mp hfollowed.checked
      obtain ⟨hin, rfl⟩ | ⟨hnot, hkind, rfl⟩ := hnext
      · obtain ⟨hkind, hbelow⟩ := hmerged.closed _ hin hfollowed.fresh _
          (Compile_name hfollowed.compile)
        exact ⟨hmerged, honward child ⟨hfollowed.once, hfollowed.compile, harguments, hkind⟩ hbelow⟩
      · refine ⟨⟨fun name hn => ?_, fun name hn hopen type htype => ?_⟩, fun b' hpost => ?_⟩
        · rw [Merge.enter_stack] at hn
          rcases List.mem_append.mp hn with hn | hn
          · exact List.mem_append_left _ (hmerged.opened name hn)
          · exact List.mem_append_right _ hn
        · rw [Merge.enter_stack, List.mem_append, not_or] at hopen
          have hin := (List.mem_append.mp hn).resolve_right hopen.2
          exact hmerged.closed name hin hopen.1 type htype
        · obtain ⟨hmerged', hbelow⟩ := hpost
          match hown : Build.addOwn componentClass (Merge.enter (m.stack ++ [child.fullyname]) child
              (e.compute m.templateparameters m.attributeparameters)) b' with
          | .error failure =>
            rw [show (copyDescent target components componentClass depth).leave m e _ b b' = _
              from hown]
            trivial
          | .ok b'' =>
            rw [show (copyDescent target components componentClass depth).leave m e _ b b' = _
              from hown]
            rw [← Merge.enter_type (m.stack ++ [child.fullyname]) child
              (e.compute m.templateparameters m.attributeparameters)] at hkind
            have hfits := kindFits_of_ok hkind hown
            rw [Merge.enter_type] at hfits hbelow
            refine ⟨MergedFit.congr ⟨fun name hn => hmerged'.opened name ?_, ?_⟩
              (Build.addOwn_ok hown), honward child
                ⟨hfollowed.once, hfollowed.compile, harguments, hfits⟩ hbelow⟩
            · rw [Merge.enter_stack]
              exact List.mem_append_left _ hn
            · intro name hn hopen type htype
              by_cases hname : name = child.fullyname
              · subst hname
                cases (Compile_name hfollowed.compile).symm.trans htype
                exact ⟨hfits, hbelow⟩
              · refine hmerged'.closed name hn ?_ type htype
                rw [Merge.enter_stack, List.mem_append, not_or]
                exact ⟨hopen, fun h => hname (List.mem_singleton.mp h)⟩
  close m b₀ b hpre hJ :=
    ⟨hJ.1.congr (b.addLocals_cumul m.type), .of_children hJ.2⟩

/-- What is open leads to the definition that is merged. -/
structure Open (components : Components) (m : Merge) : Prop where
  opened : ∀ name ∈ m.stack, ∃ t, Compile components name = .ok t ∧
    ReflTransGen (Extends components) t m.type
  acyclic : ¬ LeadsBack components m.type

theorem followExtend_fits (hdepth : components.length < depth) {m : Merge} {e : Definition}
    {child : Asttype} (h : ClauseFits target components componentClass m.type e child)
    (hfresh : child.fullyname ∉ m.stack) (b : Build) :
    followExtend target components componentClass depth m b e = .ok (if child.fullyname ∈ b.cumul
      then .inl b else .inr (Merge.enter (m.stack ++ [child.fullyname]) child
        (e.compute m.templateparameters m.attributeparameters),
        { b with cumul := b.cumul ++ [child.fullyname] })) := by
  have honce : throwIf ((m.type.extended.filter (·.type = e.type)).length ≠ 1)
      (.extendsTwice e.type) = .ok () := throwIf_ok.mpr (by simp [h.once])
  have hloop : throwIf (child.fullyname ∈ m.stack) (.loopInExtends m.stack) = .ok () :=
    throwIf_ok.mpr (by simp [hfresh])
  have harguments : checkDefinition components target depth child (some e.templates)
      (some e.attributes) = .ok () := (checkDefinition_ok hdepth).mpr h.arguments
  unfold followExtend
  rw [honce, h.compile]
  change (checkDefinition components target depth child _ _ >>= _) = _
  rw [harguments]
  change (throwIf _ _ >>= _) = _
  rw [hloop]
  change (if _ then _ else _) = _
  split_ifs
  · rfl
  · rw [checkKind_ok h.kind]
    rfl

/-- Where all clauses fit and nothing leads back there is no error. -/
theorem succeeds_rule (hdepth : components.length < depth) :
    Rule (copyDescent target components componentClass depth) .unfinished
      (fun m _ => Open components m ∧ ClausesFit target components componentClass m.type)
      (fun _ _ _ => True) (fun _ _ _ _ => True) (· = .unfinished) where
  unfinished := rfl
  enter _ _ _ := trivial
  follow m b₀ done e rest b hpre hl _ := by
    obtain ⟨hopen, hclauses⟩ := hpre
    have hl : m.type.extended = done ++ e :: rest := hl
    have he : e ∈ m.type.extended := hl ▸ List.mem_append_right _ List.mem_cons_self
    obtain ⟨child, hclause⟩ := hclauses m.type .refl e he
    have hchild : Extends components m.type child := ⟨e, he, hclause.compile⟩
    have hfresh : child.fullyname ∉ m.stack := by
      intro hin
      obtain ⟨t, ht, hreach⟩ := hopen.opened _ hin
      obtain rfl := Except.ok.inj ((Compile_name hclause.compile).symm.trans ht)
      exact hopen.acyclic ⟨m.type, .refl, TransGen.head' hchild hreach⟩
    change Outcome _ _ (followExtend target components componentClass depth m b e)
    rw [followExtend_fits hdepth hclause hfresh]
    change Outcome _ _ (Except.ok (if _ then _ else _))
    split_ifs
    · trivial
    · refine ⟨⟨⟨fun name hn => ?_, ?_⟩, ?_⟩, fun b' _ => ?_⟩
      · rw [Merge.enter_stack] at hn
        rw [Merge.enter_type]
        rcases List.mem_append.mp hn with hn | hn
        · exact (hopen.opened name hn).imp fun t ht => ⟨ht.1, ht.2.tail hchild⟩
        · rw [List.mem_singleton.mp hn]
          exact ⟨child, Compile_name hclause.compile, .refl⟩
      · rw [Merge.enter_type]
        exact fun ⟨t, ht, hback⟩ => hopen.acyclic ⟨t, .head hchild ht, hback⟩
      · rw [Merge.enter_type]
        exact hclauses.child hchild
      · have hkind := hclause.kind
        rw [← Merge.enter_type (m.stack ++ [child.fullyname]) child
          (e.compute m.templateparameters m.attributeparameters)] at hkind
        obtain ⟨b'', hb''⟩ := exists_addOwn (b := b') hkind
        change Outcome _ _ (Build.addOwn _ _ _)
        rw [hb'']
        trivial
  close _ _ _ _ _ := trivial

/-- A component can be built exactly where nothing leads back, the arguments of the component fit,
and so do those of all clauses from it on, as they are written there. -/
theorem createCanonical_accepts (target : Target) (components : Components)
    (componentClass : ComponentClass) {depth : Nat} (hdepth : components.length < depth)
    (type : Asttype) (templates attributes : Option (List String)) (cvalues : Nat → String) :
    (∃ b, createCanonical target components depth componentClass type templates attributes cvalues =
      .ok b) ↔
    ArgumentsFit target components type
      ((if componentClass = .composite then templates else none).getD []) (attributes.getD []) ∧
    ¬ LeadsBack components type ∧ ClausesFit target components componentClass type := by
  constructor
  · rintro ⟨b, h⟩
    have hclean := createCanonical_clean h
    rw [createCanonical_eq] at h
    obtain ⟨_, hchecked, h⟩ := Checks.bind_ok.mp h
    obtain ⟨b', hrun, -⟩ := Checks.bind_ok.mp h
    have hstart : MergedFit target components componentClass
        (Merge.root componentClass type templates attributes) ⟨[], .empty, cvalues⟩ :=
      ⟨fun name hn => absurd hn List.not_mem_nil, fun name hn => absurd hn List.not_mem_nil⟩
    exact ⟨(checkDefinition_ok hdepth).mp hchecked, hclean.not_leadsBack,
      (((fits_rule hdepth).run depth hstart).ok hrun).2⟩
  · rintro ⟨harguments, hacyclic, hclauses⟩
    have hends : createCanonical target components depth componentClass type templates attributes
        cvalues ≠ .error .unfinished := (createCanonical_ends hdepth _ _ _ _).ne
    have hchecked : checkDefinition components target depth type
        (if componentClass = .composite then templates else none) attributes = .ok () :=
      (checkDefinition_ok hdepth).mpr harguments
    have hopen : Open components (Merge.root componentClass type templates attributes) :=
      ⟨fun name hn => absurd hn List.not_mem_nil, hacyclic⟩
    have hrun := (succeeds_rule hdepth).run depth
      (s := (⟨[], .empty, cvalues⟩ : Build)) ⟨hopen, hclauses⟩
    have hcreate : createCanonical target components depth componentClass type templates attributes
        cvalues = ((copyDescent target components componentClass depth).run .unfinished depth
          (Merge.root componentClass type templates attributes) ⟨[], .empty, cvalues⟩ >>=
            fun b => .ok (b.addRoot target componentClass
              (Merge.root componentClass type templates attributes))) := by
      rw [createCanonical_eq, hchecked]
      rfl
    rw [hcreate] at hends ⊢
    cases hcopy : (copyDescent target components componentClass depth).run .unfinished depth
        (Merge.root componentClass type templates attributes) ⟨[], .empty, cvalues⟩ with
    | ok b => exact ⟨_, rfl⟩
    | error failure =>
      rw [hcopy] at hends
      exact absurd (congrArg Except.error (hrun.error hcopy)) hends

end Accepts

/-- Types, the second of which extends the first, and two composites with a parameter that has to
extend it; the second one passes its own to the first. -/
def forwarding : Components :=
  let type (fullyname : String) (extended : List Definition) : Asttype :=
    { samplePrimitive fullyname [] with kind := .type, extended }
  let composite (fullyname : String) (extended : List Definition) : Asttype :=
    { samplePrimitive fullyname [] with
      kind := .composite, extended, templateparameters := [⟨"Base", "X"⟩] }
  [type "Base" [], type "Derived" [⟨"Base", [], []⟩], composite "Inner" [],
    composite "Outer" [⟨"Inner", ["X"], []⟩]]

/-- A parameter that is passed on is looked for as a definition, and the component is refused. -/
theorem createCanonical_accepts_sample : ∃ inner outer, Compile forwarding "Inner" = .ok inner ∧
    Compile forwarding "Outer" = .ok outer ∧
    (∃ b, createCanonical sampleTarget forwarding 5 .composite inner (some ["Derived"]) none
      (fun _ => "") = .ok b) ∧
    ¬ ∃ b, createCanonical sampleTarget forwarding 5 .composite outer (some ["Derived"]) none
      (fun _ => "") = .ok b := by
  refine ⟨_, _, rfl, rfl, ⟨_, rfl⟩, fun h => ?_⟩
  obtain ⟨-, -, hclauses⟩ := (createCanonical_accepts sampleTarget forwarding .composite (by decide)
    _ _ _ _).mp h
  obtain ⟨child, hclause⟩ := hclauses _ .refl ⟨"Inner", ["X"], []⟩ List.mem_cons_self
  obtain rfl := Except.ok.inj hclause.compile
  obtain ⟨htemplates, -⟩ := hclause.arguments
  obtain ⟨⟨paramType, hcompile, -⟩, -⟩ := List.forall₂_cons.mp htemplates
  cases hcompile

end Codinalte.Conf
