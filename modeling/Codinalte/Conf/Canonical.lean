import Codinalte.Conf.Definitions
import Mathlib.Logic.Function.Basic

/-! How the instance of a component is filled from its definition and from all that it extends. -/

namespace Codinalte.Conf
open Codinalte.Graph (Require Provide Bind CodingStyle DomainNames)

/-- What the build depends on beside the definitions: the target, what its generators make for the
name of a type, and whether the sources of a primitive can be copied for its next clone. -/
structure Target where
  domain : DomainNames
  style : CodingStyle
  sizeOfWord : Int
  stubGenerator : Option (String → Except Error Asttype)
  skeletonGenerator : Option (String → Except Error Asttype)
  copySources : Asttype → Nat → Except Error Unit

abbrev Parameters := List (String × String)

/-- A map from names to values; a later value for a name hides an earlier one. -/
def ComputeParameters (declarations : List Parameter) (definitions : Option (List String)) :
    Parameters :=
  ((declarations.zip (definitions.getD [])).map fun p => (p.1.name, p.2)).reverse

def ComputeParameter (parameters : Option Parameters) (param : String) : String :=
  match parameters.bind (List.lookup param) with
  | some overloadedvalue => overloadedvalue
  | none => param

section Checks
variable (components : Components)

/-- The names of all that a definition extends, `extended` being those that were found so far. -/
def computeExtend : Nat → Asttype → List String → Except Failure (List String)
  | 0, _, _ => .error .unfinished
  | calls + 1, implementsType, extended =>
    implementsType.extended.foldlM (fun extended extend => do
      let extendType ← Compile components extend.type
      if extendType.fullyname ∈ extended then return extended
      else computeExtend calls extendType (extended ++ [extendType.fullyname])) extended

/-- The check of one argument for a template parameter. -/
def checkTemplate (calls : Nat) (declaration : Parameter) (definition : String) (i : Nat) :
    Except Failure Unit := do
  let paramType ← Compile components definition
  let extended ← computeExtend components calls paramType []
  throwIf (declaration.type ∉ extended)
    (.notCompatibleTemplate (i + 1) declaration.type paramType.fullyname extended)

def checkTemplates (calls : Nat) : List Parameter → List String → Nat → Except Failure Unit
  | declaration :: declarations, definition :: definitions, i => do
    checkTemplate components calls declaration definition i
    checkTemplates calls declarations definitions (i + 1)
  | _, _, _ => .ok ()

def checkTemplateNumber (implementsType : Asttype) :
    Option (List String) → Except Failure Unit
  -- The message asks for the number of the definitions that are not there.
  | none =>
    if implementsType.templateparameters.length ≠ 0 then .error .nullPointerException else .ok ()
  | some definitions =>
    throwIf (implementsType.templateparameters.length ≠ definitions.length)
      (.wrongTemplateNumber definitions.length implementsType.fullyname
        implementsType.templateparameters.length)

def checkAttributeNumber (implementsType : Asttype) (definitions : Option (List String)) :
    Except Failure Unit :=
  throwIf (implementsType.attributeparameters.length ≠ (definitions.getD []).length)
    (.wrongAttributeNumber (definitions.getD []).length implementsType.fullyname
      implementsType.attributeparameters.length)

def checkValues (sizeOfWord : Int) : List Parameter → List String → Except Failure Unit
  | declaration :: declarations, definition :: definitions => do
    checkValue sizeOfWord (some declaration.type) definition
    checkValues sizeOfWord declarations definitions
  | _, _ => .ok ()

/-- The arguments that are written for a definition are checked against its parameters. -/
def checkDefinition (target : Target) (calls : Nat) (implementsType : Asttype)
    (templates attributes : Option (List String)) : Except Failure Unit :=
  match implementsType.kind with
  | .composite => do
    checkTemplateNumber implementsType templates
    checkTemplates components calls implementsType.templateparameters (templates.getD []) 0
    checkAttributeNumber implementsType attributes
    checkValues target.sizeOfWord implementsType.attributeparameters (attributes.getD [])
  | .primitive => do
    throwIf ((templates.getD []).length ≠ 0) .primitiveWithTemplate
    checkAttributeNumber implementsType attributes
    checkValues target.sizeOfWord implementsType.attributeparameters (attributes.getD [])
  | .type => do
    throwIf ((templates.getD []).length ≠ 0) .primitiveWithTemplate
    throwIf ((attributes.getD []).length ≠ 0) .typeWithAttribute

end Checks

/-- What a component is made of. -/
structure Canonical where
  requires : List Require
  provides : List Provide
  properties : List Property
  options : List AstOption
  attributes : List Attribute
  values : String → Option String
  contents : List Content
  binds : List Bind

def Canonical.empty : Canonical := ⟨[], [], [], [], [], fun _ => none, [], []⟩

def Canonical.getProperty (component : Canonical) (propname : String) : Option Property :=
  component.properties.find? fun property => property.name = propname

/-- Which class the component is of: a composite, a primitive, or a black box that stands for either
on another core. -/
inductive ComponentClass where
  | composite
  | primitive
  | primitiveraw
deriving DecidableEq

/-- The component that is filled, the definitions that were merged into it, and the values of the
properties of all definitions. -/
structure Build where
  cumul : List String
  component : Canonical
  cvalues : Nat → String

/-- The call by which a definition is merged into the component. -/
abbrev CopyDependencies :=
  Asttype → List String → Option Parameters → Option Parameters → Build → Except Failure Build

def Build.addProperty (b : Build) (property : Property) : Build :=
  match b.component.getProperty property.name with
  | some origproperty =>
    { b with cvalues :=
        Function.update b.cvalues origproperty.object (b.cvalues property.object) }
  | none =>
    { b with component.properties := b.component.properties ++ [property] }

/-- What a definition declares itself. -/
def Build.addLocals (b : Build) (type : Asttype) : Build :=
  type.properties.foldl Build.addProperty
    { b with
      component.requires := b.component.requires ++ type.requires
      component.provides := b.component.provides ++ type.provides }

def copyComponentDependencies (copyDependencies : CopyDependencies) (component : Asttype)
    (stack : List String) (templateparameters attributeparameters : Option Parameters)
    (b : Build) : Except Failure Build := do
  let b ← copyDependencies component stack templateparameters attributeparameters b
  return { b with component.options := b.component.options ++ component.options }

def copyPrimitiveRawDependencies (copyDependencies : CopyDependencies) (component : Asttype)
    (stack : List String) (attributes : Option (List String)) (b : Build) :
    Except Failure Build :=
  copyComponentDependencies copyDependencies component stack none
    (some (ComputeParameters component.attributeparameters attributes)) b

def Build.addAttribute (attributeparameters : Parameters) (b : Build) (declared : Attribute) :
    Build :=
  { b with
    component.attributes := b.component.attributes ++ [declared]
    component.values := Function.update b.component.values declared.name
      (declared.initvalue.map (ComputeParameter (some attributeparameters))) }

def copyPrimitiveDependencies (copyDependencies : CopyDependencies)
    (componentClass : ComponentClass) (primitive : Asttype) (stack : List String)
    (attributes : Option (List String)) (b : Build) : Except Failure Build := do
  let attributeparameters := ComputeParameters primitive.attributeparameters attributes
  let b ← copyComponentDependencies copyDependencies primitive stack none
    (some attributeparameters) b
  -- The component is cast to a primitive, which a black box is not.
  if componentClass = .primitiveraw then .error .classCastException
  else return primitive.attributes.foldl (Build.addAttribute attributeparameters) b

/-- The arguments of a definition in the place of the parameters. -/
def Definition.compute (templateparameters attributeparameters : Option Parameters)
    (definition : Definition) : Definition where
  type := definition.type
  templates := definition.templates.map (ComputeParameter templateparameters)
  attributes := definition.attributes.map (ComputeParameter attributeparameters)

def Content.compute (templateparameters attributeparameters : Option Parameters)
    (content : Content) : Content :=
  { content with
    typedefinition :=
      { content.typedefinition.compute templateparameters attributeparameters with
        type := ComputeParameter templateparameters content.typedefinition.type } }

def copyCompositeDependencies (copyDependencies : CopyDependencies) (composite : Asttype)
    (stack : List String) (templates attributes : Option (List String)) (b : Build) :
    Except Failure Build := do
  let templateparameters := ComputeParameters composite.templateparameters templates
  let attributeparameters := ComputeParameters composite.attributeparameters attributes
  let b ← copyComponentDependencies copyDependencies composite stack (some templateparameters)
    (some attributeparameters) b
  return { b with
    component.contents := b.component.contents ++
      composite.contents.map (Content.compute (some templateparameters) (some attributeparameters))
    component.binds := b.component.binds ++ composite.binds }

/-- A definition that was not merged before, with the arguments it is extended by. -/
def copyImplements (copyDependencies : CopyDependencies) (componentClass : ComponentClass)
    (implementsType : Asttype) (stack : List String) (extend : Definition) (b : Build) :
    Except Failure Build :=
  match componentClass, implementsType.kind with
  | .composite, .primitive => .error (.compilerexception .compositeExtendsPrimitive)
  | .composite, .composite =>
    copyCompositeDependencies copyDependencies implementsType stack (some extend.templates)
      (some extend.attributes) b
  | .composite, .type => copyDependencies implementsType stack (some []) (some []) b
  | _, .composite => .error (.compilerexception .primitiveExtendsComposite)
  | _, .primitive =>
    copyPrimitiveDependencies copyDependencies componentClass implementsType stack
      (some extend.attributes) b
  | _, .type => copyDependencies implementsType stack (some []) (some []) b

section Copy
variable (target : Target) (components : Components) (componentClass : ComponentClass)

/-- One clause of what a definition extends. -/
def copyExtend (copyDependencies : CopyDependencies) (calls : Nat) (type : Asttype)
    (stack : List String) (templateparameters attributeparameters : Option Parameters) (b : Build)
    (extend : Definition) : Except Failure Build := do
  throwIf ((type.extended.filter (·.type = extend.type)).length ≠ 1) (.extendsTwice extend.type)
  let implementsType ← Compile components extend.type
  checkDefinition components target calls implementsType (some extend.templates)
    (some extend.attributes)
  throwIf (implementsType.fullyname ∈ stack) (.loopInExtends stack)
  if implementsType.fullyname ∈ b.cumul then return b
  else
    copyImplements copyDependencies componentClass implementsType
      (stack ++ [implementsType.fullyname])
      (extend.compute templateparameters attributeparameters)
      { b with cumul := b.cumul ++ [implementsType.fullyname] }

/-- A definition with all that it extends; the first argument bounds the nested calls. -/
def copyDependencies (depth : Nat) : Nat → CopyDependencies
  | 0, _, _, _, _, _ => .error .unfinished
  | calls + 1, type, stack, templateparameters, attributeparameters, b => do
    let b ← type.extended.foldlM
      (copyExtend target components componentClass (copyDependencies depth calls) depth type stack
        templateparameters attributeparameters) b
    return b.addLocals type

end Copy

/-- What every component on an MPC requires. -/
def runtime : Require where
  type := "rtos.api.runtime"
  name := "_runtime"
  collection := false
  numberOfElement := 1
  optional := false
  isStatic := true
  isIntrinsec := true
  virtualInterface := false

/-- The instance of a definition with arguments for its parameters. -/
def createCanonical (target : Target) (components : Components) (calls : Nat)
    (componentClass : ComponentClass) (type : Asttype) (templates attributes : Option (List String))
    (cvalues : Nat → String) : Except Failure Build :=
  let copyDependencies := copyDependencies target components componentClass calls calls
  let b : Build := ⟨[], .empty, cvalues⟩
  match componentClass with
  | .primitive => do
    checkDefinition components target calls type none attributes
    let b ← copyPrimitiveDependencies copyDependencies .primitive type [] attributes b
    return if target.domain = .mmdsp then
      { b with component.requires := b.component.requires ++ [runtime] }
    else b
  | .primitiveraw => do
    checkDefinition components target calls type none attributes
    copyPrimitiveRawDependencies copyDependencies type [] attributes b
  | .composite => do
    checkDefinition components target calls type templates attributes
    copyCompositeDependencies copyDependencies type [] templates attributes b

end Codinalte.Conf
