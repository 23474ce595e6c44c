import Codinalte.Conf.Instantiator
import Codinalte.Lib.Descent

/-! The three recursions over the definitions as descents: each states what an edge does apart from
the call below it. -/

namespace Codinalte.Conf
open Codinalte.Recursion

theorem throwIf_ok {condition : Bool} {error : Error} {u : Unit} :
    throwIf condition error = .ok u ↔ condition = false := by
  cases condition
  · exact iff_of_true rfl rfl
  · exact iff_of_false (fun h => nomatch h) (fun h => nomatch h)

theorem Compile_ok {components : Components} {compname : String} {type : Asttype}
    (h : Compile components compname = .ok type) :
    type ∈ components ∧ type.fullyname = compname := by
  unfold Compile at h
  split at h
  · next found hfind =>
    cases h
    exact ⟨List.mem_of_find?_eq_some hfind, by simpa using List.find?_some hfind⟩
  · cases h

theorem Compile_error {components : Components} {compname : String} {failure : Failure}
    (h : Compile components compname = .error failure) :
    failure = .compilerexception (.adlSourceNotFound compname) := by
  unfold Compile at h
  split at h
  · cases h
  · exact (Except.error.inj h).symm

section Extended
variable (components : Components)

def extendDescent : Descent Asttype Definition (List String) Failure where
  edges type := type.extended
  follow _ extended extend := do
    let extendType ← Compile components extend.type
    return if extendType.fullyname ∈ extended then .inl extended
    else .inr (extendType, extended ++ [extendType.fullyname])
  leave _ _ _ _ extended := .ok extended
  close _ extended := extended

theorem computeExtend_eq (calls : Nat) (type : Asttype) (extended : List String) :
    computeExtend components calls type extended =
      (extendDescent components).run .unfinished calls type extended := by
  induction calls generalizing type extended with
  | zero => rfl
  | succ calls ih =>
    have hedge : ∀ extended extend,
        (do
          let extendType ← Compile components extend.type
          if extendType.fullyname ∈ extended then return extended
          else computeExtend components calls extendType (extended ++ [extendType.fullyname])) =
        (extendDescent components).edge ((extendDescent components).run .unfinished calls) type
          extended extend := by
      intro extended extend
      unfold Descent.edge
      simp only [extendDescent, bind_assoc]
      refine bind_congr fun extendType => ?_
      split
      · rfl
      · rw [ih]
        exact (bind_pure (m := Except Failure) _).symm
    rw [Descent.run_succ, computeExtend]
    simp only [hedge]
    exact (bind_pure (m := Except Failure) _).symm

end Extended

/-- A definition that is merged into the component, with the values of its parameters; `stack` ends
with it, unless it is the definition of the component itself. -/
structure Merge where
  type : Asttype
  stack : List String
  templateparameters : Option Parameters
  attributeparameters : Option Parameters

/-- What is merged for a clause whose arguments are computed. -/
def Merge.enter (stack : List String) (implementsType : Asttype) (extend : Definition) : Merge :=
  let attributeparameters :=
    some (ComputeParameters implementsType.attributeparameters (some extend.attributes))
  match implementsType.kind with
  | .composite =>
    ⟨implementsType, stack,
      some (ComputeParameters implementsType.templateparameters (some extend.templates)),
      attributeparameters⟩
  | .primitive => ⟨implementsType, stack, none, attributeparameters⟩
  | .type => ⟨implementsType, stack, some [], some []⟩

@[simp] theorem Merge.enter_type (stack : List String) (implementsType : Asttype)
    (extend : Definition) : (Merge.enter stack implementsType extend).type = implementsType := by
  unfold Merge.enter
  cases implementsType.kind <;> rfl

@[simp] theorem Merge.enter_stack (stack : List String) (implementsType : Asttype)
    (extend : Definition) : (Merge.enter stack implementsType extend).stack = stack := by
  unfold Merge.enter
  cases implementsType.kind <;> rfl

/-- The kinds of definitions that a component must not extend. -/
def checkKind (componentClass : ComponentClass) (kind : Kind) : Except Failure Unit :=
  match componentClass, kind with
  | .composite, .primitive => .error (.compilerexception .compositeExtendsPrimitive)
  | .primitive, .composite => .error (.compilerexception .primitiveExtendsComposite)
  | .primitiveraw, .composite => .error (.compilerexception .primitiveExtendsComposite)
  | _, _ => .ok ()

def Build.addOptions (b : Build) (type : Asttype) : Build :=
  { b with component.options := b.component.options ++ type.options }

def Build.addContents (b : Build) (m : Merge) : Build :=
  { b with
    component.contents := b.component.contents ++
      m.type.contents.map (Content.compute m.templateparameters m.attributeparameters)
    component.binds := b.component.binds ++ m.type.binds }

/-- What a definition adds once all that it extends is merged. -/
def Build.addOwn (componentClass : ComponentClass) (m : Merge) (b : Build) :
    Except Failure Build :=
  match m.type.kind with
  | .composite => .ok ((b.addOptions m.type).addContents m)
  | .primitive =>
    if componentClass = .primitiveraw then .error .classCastException
    else .ok (m.type.attributes.foldl (Build.addAttribute (m.attributeparameters.getD []))
      (b.addOptions m.type))
  | .type => .ok b

section Copied
variable (target : Target) (components : Components) (componentClass : ComponentClass)
  (depth : Nat)

/-- What one clause leads to: nothing if its definition was merged before. -/
def followExtend (m : Merge) (b : Build) (extend : Definition) :
    Except Failure (Build ⊕ Merge × Build) := do
  throwIf ((m.type.extended.filter (·.type = extend.type)).length ≠ 1) (.extendsTwice extend.type)
  let implementsType ← Compile components extend.type
  checkDefinition components target depth implementsType (some extend.templates)
    (some extend.attributes)
  throwIf (implementsType.fullyname ∈ m.stack) (.loopInExtends m.stack)
  if implementsType.fullyname ∈ b.cumul then return .inl b
  else do
    checkKind componentClass implementsType.kind
    return .inr (Merge.enter (m.stack ++ [implementsType.fullyname]) implementsType
      (extend.compute m.templateparameters m.attributeparameters),
      { b with cumul := b.cumul ++ [implementsType.fullyname] })

def copyDescent : Descent Merge Definition Build Failure where
  edges m := m.type.extended
  follow := followExtend target components componentClass depth
  leave _ _ m _ b := b.addOwn componentClass m
  close m b := b.addLocals m.type

theorem copyImplements_eq (copy : CopyDependencies) (implementsType : Asttype)
    (stack : List String) (extend : Definition) (b : Build) :
    copyImplements copy componentClass implementsType stack extend b = (do
      checkKind componentClass implementsType.kind
      let m := Merge.enter stack implementsType extend
      let b ← copy m.type m.stack m.templateparameters m.attributeparameters b
      b.addOwn componentClass m) := by
  unfold copyImplements Merge.enter Build.addOwn
  cases hkind : implementsType.kind <;> cases componentClass <;> simp only [hkind]
  case type.composite => exact (bind_pure (m := Except Failure) _).symm
  case type.primitive => exact (bind_pure (m := Except Failure) _).symm
  case type.primitiveraw => exact (bind_pure (m := Except Failure) _).symm
  case primitive.composite => rfl
  case primitive.primitive => exact bind_assoc (m := Except Failure) _ _ _
  case primitive.primitiveraw => exact bind_assoc (m := Except Failure) _ _ _
  case composite.composite => exact bind_assoc (m := Except Failure) _ _ _
  case composite.primitive => rfl
  case composite.primitiveraw => rfl

theorem copyDependencies_eq (calls : Nat) (m : Merge) (b : Build) :
    copyDependencies target components componentClass depth calls m.type m.stack
      m.templateparameters m.attributeparameters b =
      (copyDescent target components componentClass depth).run .unfinished calls m b := by
  induction calls generalizing m b with
  | zero => rfl
  | succ calls ih =>
    have hedge : copyExtend target components componentClass
          (copyDependencies target components componentClass depth calls) depth m.type m.stack
          m.templateparameters m.attributeparameters =
        (copyDescent target components componentClass depth).edge
          ((copyDescent target components componentClass depth).run .unfinished calls) m := by
      funext b extend
      change _ = followExtend target components componentClass depth m b extend >>= _
      unfold copyExtend followExtend
      simp only [bind_assoc]
      refine bind_congr fun _ => bind_congr fun implementsType => bind_congr fun _ =>
        bind_congr fun _ => ?_
      split
      · rfl
      · rw [copyImplements_eq, bind_assoc]
        refine bind_congr fun _ => ?_
        exact congrArg (· >>= _) (ih _ _)
    rw [Descent.run_succ, copyDependencies, hedge]
    rfl

/-- The definition of the component itself. -/
def Merge.root (type : Asttype) (templates attributes : Option (List String)) : Merge where
  type := type
  stack := []
  templateparameters :=
    if componentClass = .composite then some (ComputeParameters type.templateparameters templates)
    else none
  attributeparameters := some (ComputeParameters type.attributeparameters attributes)

/-- What is left to do once the definition is merged. -/
def Build.addRoot (m : Merge) (b : Build) : Build :=
  match componentClass with
  | .composite => (b.addOptions m.type).addContents m
  | .primitive =>
    let b := m.type.attributes.foldl (Build.addAttribute (m.attributeparameters.getD []))
      (b.addOptions m.type)
    if target.domain = .mmdsp then
      { b with component.requires := b.component.requires ++ [runtime] }
    else b
  | .primitiveraw => b.addOptions m.type

theorem createCanonical_eq (calls : Nat) (type : Asttype)
    (templates attributes : Option (List String)) (cvalues : Nat → String) :
    createCanonical target components calls componentClass type templates attributes cvalues = (do
      checkDefinition components target calls type
        (if componentClass = .composite then templates else none) attributes
      let m := Merge.root componentClass type templates attributes
      let b ← (copyDescent target components componentClass calls).run .unfinished calls m
        ⟨[], .empty, cvalues⟩
      return b.addRoot target componentClass m) := by
  unfold createCanonical
  simp only [← copyDependencies_eq]
  cases componentClass with
  | composite =>
    refine bind_congr fun _ => ?_
    exact bind_assoc _ _ _
  | primitive =>
    refine bind_congr fun _ => ?_
    unfold copyPrimitiveDependencies copyComponentDependencies
    simp only [bind_assoc]
    rfl
  | primitiveraw =>
    refine bind_congr fun _ => ?_
    rfl

end Copied

/-- A composite whose contents are being instantiated; `callstack` ends with it. -/
structure Opened where
  content : Option Content
  type : Asttype
  callstack : List String
  canonical : Canonical

section Instanciated
variable (target : Target) (components : Components) (depth : Nat)

/-- What one content leads to: a component at once, or a composite to open. -/
def followContent (f : Opened) (s : Inside × Run) (content : Content) :
    Except Failure ((Inside × Run) ⊕ Opened × (Inside × Run)) := do
  throwIf (s.1.hasFcSubComponent content.name)
    (.subcomponentInstantiateTwice content.name f.type.fullyname)
  throwIf (content.typedefinition.type ∈ f.callstack) (.loopInNetwork f.callstack)
  throwIf (getOrdinal content.priority > maxpriority target)
    (.priorityNotSupported content.priority (maxpriority target))
  match content.mpc with
  | none =>
    match generated target content.typedefinition.type with
    | some type => do return .inl (← instanciateGenerated target components depth content type s)
    | none => do
      let sctype ← Compile components content.typedefinition.type
      match sctype.kind with
      | .composite => do
        let b ← createCanonical target components depth .composite sctype
          (some content.typedefinition.templates) (some content.typedefinition.attributes)
          s.2.cvalues
        return .inr (⟨some content, sctype, f.callstack ++ [sctype.fullyname], b.component⟩,
          (⟨[], []⟩, { s.2 with cvalues := b.cvalues }))
      | .primitive => do
        let (type, isFirstInstance, run) ← createInstance target (some content) sctype s.2
        let b ← createCanonical target components depth .primitive type none
          (some content.typedefinition.attributes) run.cvalues
        return .inl (s.1.addFcSubComponent
          (.mk (some content.name) type .primitive isFirstInstance content.order b.component [] []),
          { run with cvalues := b.cvalues })
      | .type => .error (.compilerexception .instantiateType)
  | some _ => do return .inl (← instanciateProxy target components depth content s)

def Opened.component (f : Opened) (inside : Inside) : Component :=
  .mk (f.content.map (·.name)) f.type .composite true ((f.content.map (·.order)).getD maxOrder)
    f.canonical inside.subcomponents inside.controllercomponents

def openDescent : Descent Opened Content (Inside × Run) Failure where
  edges f := f.canonical.contents
  follow := followContent target components depth
  leave _ _ f s s' := .ok (s.1.addFcSubComponent (f.component s'.1), s'.2)
  close _ s := s

theorem instanciateComposite_eq (calls : Nat) (content : Option Content) (type : Asttype)
    (callstack : List String) (canonical : Canonical) (run : Run) :
    instanciateComposite target components depth calls type callstack canonical.contents run =
      (openDescent target components depth).run .unfinished calls
        ⟨content, type, callstack ++ [type.fullyname], canonical⟩ (⟨[], []⟩, run) := by
  induction calls generalizing content type callstack canonical run with
  | zero => rfl
  | succ calls ih =>
    have hedge : instanciateContent target components depth
          (instanciateComposite target components depth calls) type
          (callstack ++ [type.fullyname]) =
        (openDescent target components depth).edge
          ((openDescent target components depth).run .unfinished calls)
          ⟨content, type, callstack ++ [type.fullyname], canonical⟩ := by
      funext s content'
      change _ = followContent target components depth _ s content' >>= _
      unfold instanciateContent followContent
      simp only [bind_assoc]
      refine bind_congr fun _ => bind_congr fun _ => bind_congr fun _ => ?_
      cases content'.mpc with
      | some mpc =>
        simp only [bind_assoc]
        exact (bind_pure (m := Except Failure) _).symm
      | none =>
        cases generated target content'.typedefinition.type with
        | some generatedType =>
          simp only [bind_assoc]
          exact (bind_pure (m := Except Failure) _).symm
        | none =>
          simp only [bind_assoc]
          refine bind_congr fun sctype => ?_
          unfold instanciateComponent
          cases sctype.kind with
          | composite =>
            simp only [bind_assoc]
            refine bind_congr fun b => ?_
            rw [ih (some content')]
            rfl
          | primitive =>
            simp only [bind_assoc]
            rfl
          | type => rfl
    rw [Descent.run_succ, instanciateComposite, hedge]
    exact (bind_pure (m := Except Failure) _).symm

end Instanciated

end Codinalte.Conf
