import Codinalte.Conf.Termination
import Mathlib.Logic.Relation
import Mathlib.Order.WellFounded

/-! Which definitions lead back to themselves, and that exactly these are reported as loops. -/

namespace Codinalte.Conf
open Codinalte.Recursion Relation

section Extends
variable (components : Components)

def Extends (a b : Asttype) : Prop := ∃ e ∈ a.extended, Compile components e.type = .ok b

/-- Following what is extended leads back to a definition on the way. -/
def LeadsBack (type : Asttype) : Prop :=
  ∃ t, ReflTransGen (Extends components) type t ∧ TransGen (Extends components) t t

/-- Nothing goes on for ever from here. -/
abbrev Clean (type : Asttype) : Prop := Acc (fun a b => Extends components b a) type

variable {components}

theorem Clean.not_back {type : Asttype} (h : Clean components type) :
    ¬ TransGen (Extends components) type type := by
  induction h with
  | intro type _ ih =>
    intro hcycle
    obtain ⟨child, hchild, hback⟩ := TransGen.head'_iff.mp hcycle
    exact ih child hchild (TransGen.tail' hback hchild)

theorem Clean.not_leadsBack {type : Asttype} (h : Clean components type) :
    ¬ LeadsBack components type := by
  rintro ⟨t, hreach, hcycle⟩
  induction hreach using ReflTransGen.head_induction_on with
  | refl => exact h.not_back hcycle
  | head hstep _ ih => exact ih (h.inv hstep)

end Extends

theorem Compile_name {components : Components} {compname : String} {type : Asttype}
    (h : Compile components compname = .ok type) :
    Compile components type.fullyname = .ok type := by
  rw [(Compile_ok h).2]
  exact h

section Accepted
variable {target : Target} {components : Components} {componentClass : ComponentClass}
  {depth : Nat}

/-- The definitions that were merged are clean, apart from those that are still open. -/
structure Merged (components : Components) (m : Merge) (b : Build) : Prop where
  opened : ∀ name ∈ m.stack, name ∈ b.cumul
  closed : ∀ name ∈ b.cumul, name ∉ m.stack → ∀ type, Compile components name = .ok type →
    Clean components type

theorem Merged.congr {m : Merge} {b b' : Build} (h : Merged components m b)
    (heq : b'.cumul = b.cumul) : Merged components m b' :=
  ⟨fun name hn => heq ▸ h.opened name hn, fun name hn => h.closed name (heq ▸ hn)⟩

/-- A build without an error has followed all that is extended to an end. -/
theorem accepted_rule :
    Rule (copyDescent target components componentClass depth) .unfinished
      (fun m b => Merged components m b)
      (fun m _ b' => Merged components m b' ∧ Clean components m.type)
      (fun m _ done b => Merged components m b ∧
        ∀ e ∈ done, ∀ type, Compile components e.type = .ok type → Clean components type)
      (fun _ => True) where
  unfinished := trivial
  enter m b h := ⟨h, fun _ h => nomatch h⟩
  follow m b₀ done e rest b hpre hl hJ := by
    obtain ⟨hmerged, hdone⟩ := hJ
    have honward : ∀ implementsType, Compile components e.type = .ok implementsType →
        Clean components implementsType → ∀ e' ∈ done ++ [e], ∀ type,
          Compile components e'.type = .ok type → Clean components type := by
      intro implementsType hcompile hclean e' he' type htype
      rcases List.mem_append.mp he' with he' | he'
      · exact hdone e' he' type htype
      · cases List.mem_singleton.mp he'
        cases hcompile.symm.trans htype
        exact hclean
    match h : followExtend target components componentClass depth m b e with
    | .error failure =>
      rw [show (copyDescent target components componentClass depth).follow m b e = _ from h]
      trivial
    | .ok next =>
      rw [show (copyDescent target components componentClass depth).follow m b e = _ from h]
      obtain ⟨implementsType, hfollowed, ⟨hin, rfl⟩ | ⟨hnot, hkind, rfl⟩⟩ := followExtend_ok h
      · exact ⟨hmerged, honward implementsType hfollowed.compile
          (hmerged.closed _ hin hfollowed.fresh _ (Compile_name hfollowed.compile))⟩
      · refine ⟨⟨fun name hn => ?_, fun name hn hopen type htype => ?_⟩, fun b' hpost => ?_⟩
        · rw [Merge.enter_stack] at hn
          rcases List.mem_append.mp hn with hn | hn
          · exact List.mem_append_left _ (hmerged.opened name hn)
          · exact List.mem_append_right _ hn
        · rw [Merge.enter_stack, List.mem_append, not_or] at hopen
          have hin := (List.mem_append.mp hn).resolve_right hopen.2
          exact hmerged.closed name hin hopen.1 type htype
        · obtain ⟨hmerged', hclean⟩ := hpost
          rw [Merge.enter_type] at hclean
          have hback : Merged components m b' := by
            refine ⟨fun name hn => hmerged'.opened name ?_, fun name hn hopen type htype => ?_⟩
            · rw [Merge.enter_stack]
              exact List.mem_append_left _ hn
            · by_cases hname : name = implementsType.fullyname
              · subst hname
                cases (Compile_name hfollowed.compile).symm.trans htype
                exact hclean
              · refine hmerged'.closed name hn ?_ type htype
                rw [Merge.enter_stack, List.mem_append, not_or]
                exact ⟨hopen, fun h => hname (List.mem_singleton.mp h)⟩
          match hown : Build.addOwn componentClass (Merge.enter (m.stack ++
              [implementsType.fullyname]) implementsType
              (e.compute m.templateparameters m.attributeparameters)) b' with
          | .error failure =>
            rw [show (copyDescent target components componentClass depth).leave m e _ b b' = _
              from hown]
            trivial
          | .ok b'' =>
            rw [show (copyDescent target components componentClass depth).leave m e _ b b' = _
              from hown]
            exact ⟨hback.congr (Build.addOwn_ok hown),
              honward implementsType hfollowed.compile hclean⟩
  close m b₀ b hpre hJ := by
    obtain ⟨hmerged, hdone⟩ := hJ
    refine ⟨hmerged.congr (b.addLocals_cumul m.type), ⟨_, fun child hchild => ?_⟩⟩
    obtain ⟨e, he, hcompile⟩ := hchild
    exact hdone e he child hcompile

end Accepted

section Viewed
variable {target : Target} {components : Components} {componentClass : ComponentClass}
  {depth : Nat}

/-- A build without the values of the properties. -/
def Build.view (b : Build) : List String × Canonical := (b.cumul, b.component)

theorem Build.view_foldl {α : Type} {step : Build → α → Build}
    (h : ∀ b b' a, b.view = b'.view → (step b a).view = (step b' a).view) (l : List α)
    {b b' : Build} (hb : b.view = b'.view) : (l.foldl step b).view = (l.foldl step b').view := by
  induction l generalizing b b' with
  | nil => exact hb
  | cons a l ih => exact ih (h b b' a hb)

theorem Build.view_addProperty (b b' : Build) (property : Property) (h : b.view = b'.view) :
    (b.addProperty property).view = (b'.addProperty property).view := by
  obtain ⟨cumul, component, cvalues⟩ := b
  obtain ⟨cumul', component', cvalues'⟩ := b'
  obtain ⟨rfl, rfl⟩ : cumul = cumul' ∧ component = component' := Prod.mk.inj h
  unfold Build.addProperty
  dsimp only
  cases component.getProperty property.name with
  | none => rfl
  | some origproperty => rfl

theorem Build.view_addLocals (b b' : Build) (type : Asttype) (h : b.view = b'.view) :
    (b.addLocals type).view = (b'.addLocals type).view := by
  unfold Build.addLocals
  refine Build.view_foldl Build.view_addProperty _ ?_
  obtain ⟨hcumul, hcomponent⟩ := Prod.mk.inj h
  unfold Build.view
  rw [hcumul, hcomponent]

theorem Build.view_addAttribute (parameters : Parameters) (b b' : Build) (declared : Attribute)
    (h : b.view = b'.view) :
    (b.addAttribute parameters declared).view = (b'.addAttribute parameters declared).view := by
  obtain ⟨hcumul, hcomponent⟩ := Prod.mk.inj h
  unfold Build.addAttribute Build.view
  rw [hcumul, hcomponent]

theorem Build.view_addOwn (m : Merge) (b b' : Build) (h : b.view = b'.view) :
    (b.addOwn componentClass m).map Build.view = (b'.addOwn componentClass m).map Build.view := by
  obtain ⟨cumul, component, cvalues⟩ := b
  obtain ⟨cumul', component', cvalues'⟩ := b'
  obtain ⟨rfl, rfl⟩ : cumul = cumul' ∧ component = component' := Prod.mk.inj h
  unfold Build.addOwn
  cases m.type.kind with
  | composite => rfl
  | primitive =>
    dsimp only
    split_ifs
    · rfl
    · exact congrArg Except.ok (Build.view_foldl (Build.view_addAttribute _) _ rfl)
  | type => rfl

theorem Build.view_addRoot (m : Merge) (b b' : Build) (h : b.view = b'.view) :
    (b.addRoot target componentClass m).view = (b'.addRoot target componentClass m).view := by
  obtain ⟨cumul, component, cvalues⟩ := b
  obtain ⟨cumul', component', cvalues'⟩ := b'
  obtain ⟨rfl, rfl⟩ : cumul = cumul' ∧ component = component' := Prod.mk.inj h
  unfold Build.addRoot
  cases componentClass with
  | composite => rfl
  | primitive =>
    have hview : (m.type.attributes.foldl (Build.addAttribute (m.attributeparameters.getD []))
        (Build.addOptions ⟨cumul, component, cvalues⟩ m.type)).view =
          (m.type.attributes.foldl (Build.addAttribute (m.attributeparameters.getD []))
            (Build.addOptions ⟨cumul, component, cvalues'⟩ m.type)).view :=
      Build.view_foldl (Build.view_addAttribute _) _ rfl
    obtain ⟨hcumul, hcomponent⟩ := Prod.mk.inj hview
    dsimp only
    split_ifs
    · unfold Build.view
      rw [hcumul, hcomponent]
    · exact hview
  | primitiveraw => rfl

theorem copy_viewed : Viewed (copyDescent target components componentClass depth) Build.view where
  follow m b b' extend h := by
    obtain ⟨cumul, component, cvalues⟩ := b
    obtain ⟨cumul', component', cvalues'⟩ := b'
    obtain ⟨rfl, rfl⟩ : cumul = cumul' ∧ component = component' := Prod.mk.inj h
    refine map_bind_congr fun _ => map_bind_congr fun t => map_bind_congr fun _ =>
      map_bind_congr fun _ => ?_
    dsimp only
    split_ifs
    · rfl
    · exact map_bind_congr fun _ => rfl
  leave _ _ m _ _ b b' _ h := b.view_addOwn m b' h
  close m b b' h := b.view_addLocals b' m.type h

/-- The values of the properties have no effect on what a component is made of. -/
theorem createCanonical_view (type : Asttype) (templates attributes : Option (List String))
    (cvalues cvalues' : Nat → String) :
    (createCanonical target components depth componentClass type templates attributes cvalues).map
        Build.view =
      (createCanonical target components depth componentClass type templates attributes
        cvalues').map Build.view := by
  rw [createCanonical_eq, createCanonical_eq]
  refine map_bind_congr fun _ => map_bind_eq (copy_viewed.run depth _ rfl) fun b b' hb => ?_
  exact congrArg Except.ok (Build.view_addRoot _ b b' hb)

theorem createCanonical_component {type : Asttype} {templates attributes : Option (List String)}
    {cvalues cvalues' : Nat → String} {b b' : Build}
    (h : createCanonical target components depth componentClass type templates attributes cvalues =
      .ok b)
    (h' : createCanonical target components depth componentClass type templates attributes
      cvalues' = .ok b') : b.component = b'.component := by
  have hview : (Except.ok b : Except Failure Build).map Build.view =
      (Except.ok b').map Build.view := by
    rw [← h, ← h']
    exact createCanonical_view type templates attributes cvalues cvalues'
  exact congrArg Prod.snd (Except.ok.inj hview)

/-- A component that is built extends nothing that leads back. -/
theorem createCanonical_clean {type : Asttype} {templates attributes : Option (List String)}
    {cvalues : Nat → String} {b : Build}
    (h : createCanonical target components depth componentClass type templates attributes cvalues =
      .ok b) : Clean components type := by
  rw [createCanonical_eq] at h
  obtain ⟨_, -, h⟩ := Checks.bind_ok.mp h
  obtain ⟨b', hrun, -⟩ := Checks.bind_ok.mp h
  have hmerged : Merged components (Merge.root componentClass type templates attributes)
      ⟨[], .empty, cvalues⟩ :=
    ⟨fun name hn => absurd hn List.not_mem_nil, fun name hn => absurd hn List.not_mem_nil⟩
  exact ((accepted_rule.run depth hmerged).ok hrun).2

end Viewed

section Network
variable (target : Target) (components : Components) (depth : Nat)

/-- The definition of which a content is an instance. -/
def Instantiates (content : Content) (type : Asttype) : Prop :=
  content.mpc = none ∧ generated target content.typedefinition.type = some (.ok type) ∨
    (content.mpc = none → generated target content.typedefinition.type = none) ∧
      Compile components content.typedefinition.type = .ok type

/-- A content of an open composite opens another one. -/
def OpensNext (f : Opened) (content : Content) (c : Opened) : Prop :=
  ∃ cvalues b, Opens target components depth f content c cvalues b

/-- Following the contents leads back to a composite that is open, or to a component whose
definition leads back by what it extends. -/
def LoopsBelow (f : Opened) : Prop :=
  ∃ g, ReflTransGen (fun f c => ∃ content ∈ f.canonical.contents,
      OpensNext target components depth f content c) f g ∧
    ∃ content ∈ g.canonical.contents, content.typedefinition.type ∈ g.callstack ∨
      ∃ type, Instantiates target components content type ∧ LeadsBack components type

/-- The same from a definition that is instantiated on its own. -/
def Loops (sc : Asttype) : Prop :=
  LeadsBack components sc ∨ sc.kind = .composite ∧ ∃ cvalues b,
    createCanonical target components depth .composite sc none none cvalues = .ok b ∧
      LoopsBelow target components depth (.root sc b)

variable {target components depth} {f c c' : Opened} {content : Content} {s : Inside × Run}

theorem OpensNext.unique (h : OpensNext target components depth f content c)
    (h' : OpensNext target components depth f content c') : c = c' := by
  obtain ⟨cvalues, b, hopens⟩ := h
  obtain ⟨cvalues', b', hopens'⟩ := h'
  have htype : c.type = c'.type := Except.ok.inj (hopens.compile.symm.trans hopens'.compile)
  have hcanonical := hopens'.canonical
  rw [← htype] at hcanonical
  rw [hopens.frame, hopens'.frame, htype, createCanonical_component hopens.canonical hcanonical]

theorem createInstance_extended {type type' : Asttype} {isFirstInstance : Bool}
    {content : Option Content} {run run' : Run}
    (h : createInstance target content type run = .ok (type', isFirstInstance, run')) :
    type'.extended = type.extended := by
  unfold createInstance at h
  dsimp only at h
  split_ifs at h
  · cases h
    rfl
  · cases hstyle : target.style with
    | c =>
      rw [hstyle] at h
      obtain ⟨_, -, h⟩ := Checks.bind_ok.mp h
      cases h
      rfl
    | cpp =>
      rw [hstyle] at h
      obtain ⟨_, -, h⟩ := Checks.bind_ok.mp h
      cases h
      rfl
  · cases h
    rfl

theorem Clean.of_extended {type type' : Asttype} (h : Clean components type')
    (hextended : type'.extended = type.extended) : Clean components type := by
  refine ⟨_, fun child hchild => h.inv ?_⟩
  unfold Extends at hchild ⊢
  rw [hextended]
  exact hchild

/-- A content that was followed does not lead back, nor does what it is an instance of. -/
theorem followContent_clean {next : (Inside × Run) ⊕ Opened × (Inside × Run)}
    (h : followContent target components depth f s content = .ok next) :
    content.typedefinition.type ∉ f.callstack ∧
      ∀ type, Instantiates target components content type → Clean components type := by
  unfold followContent at h
  obtain ⟨_, -, h⟩ := Checks.bind_ok.mp h
  obtain ⟨_, hfresh, h⟩ := Checks.bind_ok.mp h
  obtain ⟨_, -, h⟩ := Checks.bind_ok.mp h
  refine ⟨by simpa using throwIf_ok.mp hfresh, fun type htype => ?_⟩
  cases hmpc : content.mpc with
  | none =>
    rw [hmpc] at h
    cases hgenerated : generated target content.typedefinition.type with
    | some generatedType =>
      rw [hgenerated] at h
      rcases htype with ⟨-, hwritten⟩ | ⟨hwritten, -⟩
      · obtain rfl : generatedType = .ok type := Option.some_inj.mp (hgenerated.symm.trans hwritten)
        obtain ⟨_, h, -⟩ := Checks.bind_ok.mp h
        obtain ⟨_, hraise, h⟩ := Checks.bind_ok.mp h
        obtain ⟨b, hcanonical, -⟩ := Checks.bind_ok.mp h
        cases hraise
        exact createCanonical_clean hcanonical
      · cases hgenerated.symm.trans (hwritten hmpc)
    | none =>
      rw [hgenerated] at h
      rcases htype with ⟨-, hwritten⟩ | ⟨-, hcompile⟩
      · cases hgenerated.symm.trans hwritten
      obtain ⟨sctype, hcompile', h⟩ := Checks.bind_ok.mp h
      obtain rfl : sctype = type := Except.ok.inj (hcompile'.symm.trans hcompile)
      dsimp only at h
      cases hkind : sctype.kind with
      | composite =>
        rw [hkind] at h
        obtain ⟨b, hcanonical, -⟩ := Checks.bind_ok.mp h
        exact createCanonical_clean hcanonical
      | primitive =>
        rw [hkind] at h
        obtain ⟨⟨type', isFirstInstance, run⟩, hinstance, h⟩ := Checks.bind_ok.mp h
        obtain ⟨b, hcanonical, -⟩ := Checks.bind_ok.mp h
        exact (createCanonical_clean hcanonical).of_extended (createInstance_extended hinstance)
      | type =>
        rw [hkind] at h
        cases h
  | some mpc =>
    rw [hmpc] at h
    rcases htype with ⟨hnone, -⟩ | ⟨-, hcompile⟩
    · cases hmpc.symm.trans hnone
    obtain ⟨_, h, -⟩ := Checks.bind_ok.mp h
    obtain ⟨_, -, h⟩ := Checks.bind_ok.mp h
    obtain ⟨_, -, h⟩ := Checks.bind_ok.mp h
    obtain ⟨sc, hcompile', h⟩ := Checks.bind_ok.mp h
    obtain ⟨_, -, h⟩ := Checks.bind_ok.mp h
    obtain ⟨b, hcanonical, -⟩ := Checks.bind_ok.mp h
    obtain rfl : sc = type := Except.ok.inj (hcompile'.symm.trans hcompile)
    exact createCanonical_clean hcanonical

/-- Nothing is opened by a content that becomes a component at once. -/
theorem followContent_inl {s' : Inside × Run}
    (h : followContent target components depth f s content = .ok (.inl s')) :
    ¬OpensNext target components depth f content c := by
  rintro ⟨cvalues, b, hopens⟩
  unfold followContent at h
  obtain ⟨_, -, h⟩ := Checks.bind_ok.mp h
  obtain ⟨_, -, h⟩ := Checks.bind_ok.mp h
  obtain ⟨_, -, h⟩ := Checks.bind_ok.mp h
  rw [hopens.mpc, hopens.written] at h
  obtain ⟨sctype, hcompile, h⟩ := Checks.bind_ok.mp h
  obtain rfl : sctype = c.type := Except.ok.inj (hcompile.symm.trans hopens.compile)
  dsimp only at h
  rw [hopens.kind] at h
  obtain ⟨b', -, h⟩ := Checks.bind_ok.mp h
  cases h

/-- What is known of a content that was gone through. -/
structure Passed (target : Target) (components : Components) (depth : Nat) (f : Opened)
    (content : Content) : Prop where
  fresh : content.typedefinition.type ∉ f.callstack
  clean : ∀ type, Instantiates target components content type → Clean components type
  below : ∀ c, OpensNext target components depth f content c → ¬LoopsBelow target components depth c

theorem not_loopsBelow (h : ∀ content ∈ f.canonical.contents,
    Passed target components depth f content) : ¬LoopsBelow target components depth f := by
  rintro ⟨g, hpath, content, hcontent, hloop⟩
  rcases ReflTransGen.cases_head hpath with rfl | ⟨c, ⟨content', hcontent', hopens⟩, hrest⟩
  · rcases hloop with hloop | ⟨type, htype, hback⟩
    · exact (h content hcontent).fresh hloop
    · exact ((h content hcontent).clean type htype).not_leadsBack hback
  · exact (h content' hcontent').below c hopens ⟨g, hrest, content, hcontent, hloop⟩

/-- A network without an error has followed all contents to an end. -/
theorem network_rule :
    Rule (openDescent target components depth) .unfinished (fun _ _ => True)
      (fun f _ _ => ¬LoopsBelow target components depth f)
      (fun f _ done _ => ∀ content ∈ done, Passed target components depth f content)
      (fun _ => True) where
  unfinished := trivial
  enter _ _ _ _ h := absurd h List.not_mem_nil
  follow f s₀ done content rest s _ _ hJ := by
    have honward : Passed target components depth f content → ∀ content' ∈ done ++ [content],
        Passed target components depth f content' := by
      intro hpassed content' hcontent'
      rcases List.mem_append.mp hcontent' with h | h
      · exact hJ content' h
      · rw [List.mem_singleton.mp h]
        exact hpassed
    cases hfollow : followContent target components depth f s content with
    | error failure =>
      rw [show (openDescent target components depth).follow f s content = _ from hfollow]
      trivial
    | ok next =>
      rw [show (openDescent target components depth).follow f s content = _ from hfollow]
      obtain ⟨hfresh, hclean⟩ := followContent_clean hfollow
      cases next with
      | inl s' =>
        exact honward ⟨hfresh, hclean, fun c hopens => absurd hopens (followContent_inl hfollow)⟩
      | inr entered =>
        obtain ⟨c, below⟩ := entered
        obtain ⟨b, hopens, -⟩ := followContent_opens hfollow
        refine ⟨trivial, fun s' hbelow => honward ⟨hfresh, hclean, fun c' hopens' => ?_⟩⟩
        rw [← OpensNext.unique ⟨_, b, hopens⟩ hopens']
        exact hbelow
  close f s₀ s _ hJ := not_loopsBelow hJ

/-- When a definition or a content leads back, there is no instance. -/
theorem instanciate_loops {sc : Asttype} (h : Loops target components depth sc) (run : Run) :
    ∃ failure, instanciate target components depth sc run = .error failure := by
  cases houtcome : instanciate target components depth sc run with
  | error failure => exact ⟨failure, rfl⟩
  | ok outcome =>
    rw [instanciate_eq] at houtcome
    cases hkind : sc.kind with
    | composite =>
      rw [hkind] at houtcome
      obtain ⟨b, hcanonical, houtcome⟩ := Checks.bind_ok.mp houtcome
      obtain ⟨s, hrun, -⟩ := Checks.bind_ok.mp houtcome
      rcases h with hback | ⟨-, cvalues, b', hcanonical', hbelow⟩
      · exact absurd hback (createCanonical_clean hcanonical).not_leadsBack
      · have hroot : Opened.root sc b' = Opened.root sc b := by
          unfold Opened.root
          rw [createCanonical_component hcanonical hcanonical']
        rw [hroot] at hbelow
        exact absurd hbelow ((network_rule.run depth trivial).ok hrun)
    | primitive =>
      rw [hkind] at houtcome
      rcases h with hback | ⟨hcomposite, -⟩
      · obtain ⟨⟨type', isFirstInstance, run'⟩, hinstance, houtcome⟩ := Checks.bind_ok.mp houtcome
        obtain ⟨b, hcanonical, -⟩ := Checks.bind_ok.mp houtcome
        exact absurd hback ((createCanonical_clean hcanonical).of_extended
          (createInstance_extended hinstance)).not_leadsBack
      · cases hkind.symm.trans hcomposite
    | type =>
      rw [hkind] at houtcome
      cases houtcome

end Network

section Reported
variable (target : Target) (components : Components) (depth : Nat)

def ReportsLoop {α : Type} (x : Except Failure α) : Prop :=
  ∃ stack, x = .error (.compilerexception (.loopInExtends stack)) ∨
    x = .error (.compilerexception (.loopInNetwork stack))

/-- The build of a component comes to a clause that passes the checks before the one for loops, and
what is extended there is open. -/
def MeetsExtended (componentClass : ComponentClass) (type : Asttype)
    (templates attributes : Option (List String)) (cvalues : Nat → String) : Prop :=
  checkDefinition components target depth type
      (if componentClass = .composite then templates else none) attributes = .ok () ∧
    ∃ m b extend implementsType, Visits (copyDescent target components componentClass depth)
        .unfinished depth (Merge.root componentClass type templates attributes)
        ⟨[], .empty, cvalues⟩ m b extend ∧
      (m.type.extended.filter (·.type = extend.type)).length = 1 ∧
      Compile components extend.type = .ok implementsType ∧
      checkDefinition components target depth implementsType (some extend.templates)
        (some extend.attributes) = .ok () ∧
      implementsType.fullyname ∈ m.stack

/-- The component that is built for a content, when nothing fails before. -/
inductive Builds (s : Inside × Run) (content : Content) :
    ComponentClass → Asttype → Option (List String) → Option (List String) → (Nat → String) → Prop
  | generated {type : Asttype} (hmpc : content.mpc = none)
      (hgenerated : generated target content.typedefinition.type = some (.ok type)) :
      Builds s content .primitive type none none s.2.cvalues
  | composite {type : Asttype} (hmpc : content.mpc = none)
      (hgenerated : generated target content.typedefinition.type = none)
      (hcompile : Compile components content.typedefinition.type = .ok type)
      (hkind : type.kind = .composite) :
      Builds s content .composite type (some content.typedefinition.templates)
        (some content.typedefinition.attributes) s.2.cvalues
  | primitive {type type' : Asttype} {isFirstInstance : Bool} {run : Run}
      (hmpc : content.mpc = none)
      (hgenerated : generated target content.typedefinition.type = none)
      (hcompile : Compile components content.typedefinition.type = .ok type)
      (hkind : type.kind = .primitive)
      (hinstance : createInstance target (some content) type s.2 =
        .ok (type', isFirstInstance, run)) :
      Builds s content .primitive type' none (some content.typedefinition.attributes) run.cvalues
  | proxy {type : Asttype} {mpc : String} (hmpc : content.mpc = some mpc)
      (hdomain : target.domain = .hostEE) (hpriority : getOrdinal content.priority ≤ 2)
      (hcompile : Compile components content.typedefinition.type = .ok type)
      (hkind : type.kind ≠ .type) :
      Builds s content .primitiveraw type none none s.2.cvalues

/-- A content leads back to an open composite, or its component meets what is open. -/
def MeetsContent (f : Opened) (s : Inside × Run) (content : Content) : Prop :=
  s.1.hasFcSubComponent content.name = false ∧
    (content.typedefinition.type ∈ f.callstack ∨
      content.typedefinition.type ∉ f.callstack ∧
        getOrdinal content.priority ≤ maxpriority target ∧
        ∃ componentClass type templates attributes cvalues,
          Builds target components s content componentClass type templates attributes cvalues ∧
          MeetsExtended target components depth componentClass type templates attributes cvalues)

/-- Somewhere in the network, with all before it passed. -/
def Meets (sc : Asttype) (run : Run) : Prop :=
  sc.kind = .composite ∧
      (MeetsExtended target components depth .composite sc none none run.cvalues ∨
        ∃ b f s content,
          createCanonical target components depth .composite sc none none run.cvalues = .ok b ∧
          Visits (openDescent target components depth) .unfinished depth (.root sc b)
            (⟨[], []⟩, { run with cvalues := b.cvalues }) f s content ∧
          MeetsContent target components depth f s content) ∨
    sc.kind = .primitive ∧ ∃ type isFirstInstance run',
      createInstance target none sc run = .ok (type, isFirstInstance, run') ∧
        MeetsExtended target components depth .primitive type none none run'.cvalues

variable {target components depth}

theorem MeetsExtended.reports {componentClass : ComponentClass} {type : Asttype}
    {templates attributes : Option (List String)} {cvalues : Nat → String}
    (h : MeetsExtended target components depth componentClass type templates attributes cvalues) :
    ∃ stack, createCanonical target components depth componentClass type templates attributes
      cvalues = .error (.compilerexception (.loopInExtends stack)) := by
  obtain ⟨hroot, m, b, extend, implementsType, hvisits, honce, hcompile, hchecked, hopen⟩ := h
  have hfollow : followExtend target components componentClass depth m b extend =
      .error (.compilerexception (.loopInExtends m.stack)) := by
    unfold followExtend
    rw [honce, hcompile]
    change (checkDefinition components target depth implementsType _ _ >>= _) = _
    rw [hchecked]
    change (throwIf (decide (implementsType.fullyname ∈ m.stack)) _ >>= _) = _
    rw [decide_eq_true hopen]
    rfl
  refine ⟨m.stack, ?_⟩
  rw [createCanonical_eq, hroot]
  change ((copyDescent target components componentClass depth).run .unfinished depth _ _ >>= _) = _
  rw [hvisits.run_error hfollow]
  rfl

/-- An error of the component that a content is an instance of is one of the content. -/
theorem followContent_error {f : Opened} {s : Inside × Run} {content : Content}
    {componentClass : ComponentClass} {type : Asttype} {templates attributes : Option (List String)}
    {cvalues : Nat → String} {failure : Failure}
    (hnew : s.1.hasFcSubComponent content.name = false)
    (hfresh : content.typedefinition.type ∉ f.callstack)
    (hpriority : getOrdinal content.priority ≤ maxpriority target)
    (hbuilds : Builds target components s content componentClass type templates attributes cvalues)
    (herror : createCanonical target components depth componentClass type templates attributes
      cvalues = .error failure) :
    followContent target components depth f s content = .error failure := by
  unfold followContent
  rw [hnew, decide_eq_false hfresh, decide_eq_false (not_lt.mpr hpriority)]
  cases hbuilds with
  | generated hmpc hgenerated =>
    rw [hmpc, hgenerated]
    change (createCanonical target components depth .primitive type none none s.2.cvalues >>= _) >>=
      _ = _
    rw [herror]
    rfl
  | composite hmpc hgenerated hcompile hkind =>
    rw [hmpc, hgenerated, hcompile]
    dsimp only [throwIf, Bool.false_eq_true, if_false, bind, Except.bind]
    rw [hkind, herror]
    rfl
  | primitive hmpc hgenerated hcompile hkind hinstance =>
    rw [hmpc, hgenerated, hcompile]
    dsimp only [throwIf, Bool.false_eq_true, if_false, bind, Except.bind]
    rw [hkind, hinstance]
    dsimp only
    rw [herror]
    rfl
  | proxy hmpc hdomain hmost hcompile hkind =>
    have hproxy : instanciateProxy target components depth content s = .error failure := by
      unfold instanciateProxy
      rw [hdomain, hcompile, decide_eq_false (not_lt.mpr hmost)]
      change (throwIf (decide (_ = Kind.type)) _ >>= _) = _
      rw [decide_eq_false hkind]
      change (createCanonical target components depth .primitiveraw _ none none s.2.cvalues >>= _) =
        _
      rw [herror]
      rfl
    rw [hmpc, hproxy]
    rfl

theorem Meets.reports {sc : Asttype} {run : Run} (h : Meets target components depth sc run) :
    ReportsLoop (instanciate target components depth sc run) := by
  rw [instanciate_eq]
  rcases h with ⟨hkind, hextended | ⟨b, f, s, content, hcanonical, hvisits, hcontent⟩⟩ |
    ⟨hkind, type, isFirstInstance, run', hinstance, hextended⟩
  · obtain ⟨stack, herror⟩ := hextended.reports
    rw [hkind, herror]
    exact ⟨stack, .inl rfl⟩
  · have hreport : ∀ failure, followContent target components depth f s content =
        .error failure → ((openDescent target components depth).run .unfinished depth (.root sc b)
          (⟨[], []⟩, { run with cvalues := b.cvalues })) = .error failure :=
      fun failure herror => hvisits.run_error herror
    rw [hkind, hcanonical]
    change ReportsLoop ((openDescent target components depth).run .unfinished depth (.root sc b)
      (⟨[], []⟩, { run with cvalues := b.cvalues }) >>= _)
    obtain ⟨hnew, hopen | ⟨hfresh, hpriority, _, _, _, _, _, hbuilds, hextended⟩⟩ := hcontent
    · have herror : followContent target components depth f s content =
          .error (.compilerexception (.loopInNetwork f.callstack)) := by
        unfold followContent
        rw [hnew, decide_eq_true hopen]
        rfl
      rw [hreport _ herror]
      exact ⟨f.callstack, .inr rfl⟩
    · obtain ⟨stack, herror⟩ := hextended.reports
      rw [hreport _ (followContent_error hnew hfresh hpriority hbuilds herror)]
      exact ⟨stack, .inl rfl⟩
  · obtain ⟨stack, herror⟩ := hextended.reports
    rw [hkind, hinstance]
    change ReportsLoop (createCanonical target components depth .primitive type none none
      run'.cvalues >>= _)
    rw [herror]
    exact ⟨stack, .inl rfl⟩

/-- Every instantiation ends, however many nested calls are allowed beyond the number of the
definitions. One that meets what is open reports the loop, and none succeeds where something leads
back. -/
theorem instanciate_ends_and_reports (target : Target) (components : Components) (depth : Nat)
    (h : components.length < depth) (sc : Asttype) (run : Run) :
    instanciate target components depth sc run ≠ .error .unfinished ∧
      (∀ deeper, components.length < deeper →
        instanciate target components deeper sc run = instanciate target components depth sc run) ∧
      (Meets target components depth sc run →
        ReportsLoop (instanciate target components depth sc run)) ∧
      (Loops target components depth sc →
        ∃ failure, instanciate target components depth sc run = .error failure) :=
  ⟨(instanciate_ends h sc run).ne,
    fun _ hdeeper => (instanciate_settled hdeeper sc run).trans (instanciate_settled h sc run).symm,
    Meets.reports, fun hloops => instanciate_loops hloops run⟩

/-- A target without generators. -/
def sampleTarget : Target where
  domain := .mmdsp
  style := .c
  sizeOfWord := 24
  stubGenerator := none
  skeletonGenerator := none
  copySources _ _ := .ok ()

/-- A primitive that extends the definitions of some names. -/
def samplePrimitive (fullyname : String) (extended : List String) : Asttype where
  fullyname
  kind := .primitive
  singleton := false
  sourceType := .cSource
  extended := extended.map fun name => ⟨name, [], []⟩
  requires := []
  provides := []
  properties := []
  options := []
  attributeparameters := []
  templateparameters := []
  attributes := []
  contents := []
  binds := []

def sampleRun : Run := ⟨[], fun _ => 0, fun _ => ""⟩

theorem instanciate_ends_and_reports_sample :
    Loops sampleTarget [samplePrimitive "A" ["A"]] 2 (samplePrimitive "A" ["A"]) ∧
      ∃ failure, instanciate sampleTarget [samplePrimitive "A" ["A"]] 2 (samplePrimitive "A" ["A"])
        sampleRun = .error failure := by
  have hloops : Loops sampleTarget [samplePrimitive "A" ["A"]] 2 (samplePrimitive "A" ["A"]) := by
    have hextends : Extends [samplePrimitive "A" ["A"]] (samplePrimitive "A" ["A"])
        (samplePrimitive "A" ["A"]) := ⟨⟨"A", [], []⟩, List.mem_cons_self, rfl⟩
    exact .inl ⟨_, .refl, .single hextends⟩
  exact ⟨hloops, (instanciate_ends_and_reports sampleTarget [samplePrimitive "A" ["A"]] 2
    (by decide) (samplePrimitive "A" ["A"]) sampleRun).2.2.2 hloops⟩

/-- A clause that is there twice leads back, and is reported as that before the loop is. -/
theorem loop_not_reported : ¬(Loops sampleTarget [samplePrimitive "A" ["A", "A"]] 2
    (samplePrimitive "A" ["A", "A"]) → ReportsLoop (instanciate sampleTarget
      [samplePrimitive "A" ["A", "A"]] 2 (samplePrimitive "A" ["A", "A"]) sampleRun)) := by
  intro h
  have hextends : Extends [samplePrimitive "A" ["A", "A"]] (samplePrimitive "A" ["A", "A"])
      (samplePrimitive "A" ["A", "A"]) := ⟨⟨"A", [], []⟩, List.mem_cons_self, rfl⟩
  have htwice : instanciate sampleTarget [samplePrimitive "A" ["A", "A"]] 2
      (samplePrimitive "A" ["A", "A"]) sampleRun =
        .error (.compilerexception (.extendsTwice "A")) := by rfl
  obtain ⟨stack, hextends | hnetwork⟩ := h (.inl ⟨_, .refl, .single hextends⟩)
  · cases htwice.symm.trans hextends
  · cases htwice.symm.trans hnetwork

end Reported

end Codinalte.Conf
