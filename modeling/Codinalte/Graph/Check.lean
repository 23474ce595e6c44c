import Codinalte.Graph.Component
import Codinalte.Lib.Checks

/-! The visitor over a graph, and the two checks that a graph passes before it is bound. -/

namespace Codinalte.Graph
open Codinalte.Checks

/-- What one pass does at a component, and at a composite before and after its contents. -/
structure Visitor (E : Type) where
  travelCommon : Place → Except E Unit
  before : Place → Except E Unit
  after : Place → Except E Unit

mutual

/-- Only the first instance of a singleton is visited. -/
def travelComponent {E : Type} (visitor : Visitor E) (owners : List Component) :
    Component → Except E Unit
  | .raw decl isFirstInstance kind =>
    if isFirstInstance then visitor.travelCommon ⟨.raw decl isFirstInstance kind, owners⟩ else .ok ⟨⟩
  | .composite decl binds subcomponents controllercomponents => do
    let composite := Component.composite decl binds subcomponents controllercomponents
    visitor.travelCommon ⟨composite, owners⟩
    visitor.before ⟨composite, owners⟩
    travelEach visitor (composite :: owners) subcomponents
    travelEach visitor (composite :: owners) controllercomponents
    visitor.after ⟨composite, owners⟩

def travelEach {E : Type} (visitor : Visitor E) (owners : List Component) :
    List Component → Except E Unit
  | [] => .ok ⟨⟩
  | sc :: rest => do
    travelComponent visitor owners sc
    travelEach visitor owners rest

end

def browseComponent {E : Type} (visitor : Visitor E) (component : Component) : Except E Unit :=
  travelComponent visitor [] component

inductive CheckError where
  | SUBCOMPONENT_INSTANTIATE_TWICE (name : String)
  | notInstantiated
  | INTERFACE_NOT_FOUND (type : String)
  | NAME_RESERVED_FOR_LIFECYCLE (name type : String)
  | LCC_WITH_COLLECTION (type : String)
  | LCC_ITF_WITH_COMPOSITE
  | INTERFACE_PROVIDE_TWICE (name : String)
  | COLLECTION_OUT_OF_RANGE (name : String)
  | IRQ_ITF_TYPE_WRONG
  | IRQ_ITF_CAN_BE_COLLECTION
  | IRQ_LINE_OUT_OF_RANGE
  | IRQ_NOT_SUPPORTED
  | ITF_PREFIX_IN_COMPOSITE
  | INTERFACE_REQUIRE_TWICE (name : String)
  | STATIC_INTERFACE_REQUIRE_TWICE (type : String)
  | STATIC_INTERFACE_AS_COLLECTION
  | LCC_CANT_BE_REQUIRED (type : String)
  | COMPONENT_NOT_REQUIRE_INTERFACE (fullyname : String) (itfname : ItfName)
  | COMPONENT_NOT_PROVIDE_INTERFACE (fullyname : String) (itfname : ItfName)
  | WRONG_COLLECTION_USE (fullyname name : String)
  | COLLECTION_INDEX_OUT_OF_RANGE (last : Int) (name : String)
  | WRONG_COLLECTION_INDEX_USE (name : String)
  | SUBCOMPONENT_NOT_EXIST (name fullyname : String)
  | COMPOSITE_REQUIRE_ALREADY_BINDED (itfname : ItfName)
  | PROVIDE_BIND_TO_REQUIRE
  | INTERFACE_MISMATCH (fromtype totype : String)
  | COMS_OUT_OF_FIFO_SIZE_LIMIT
  | COMS_OUT_OF_SUBPRIORITY_LIMIT (max : Int)
  | DISTRIBUTE_BIND_MUSTBE_ASYNCHRONOUS (clientmpc servermpc : Option String)
  | CALL_MUSTNOTBE_ASYNCHRONOUS (call : String)
  | REQUIRED_NOT_BINDED (nameinowner fullyname name type : String)
  | STATIC_REQUIRED_NOT_BIND_TO_SINGLETON
  | TEMPLATE_NOT_BINDED (fullyname name type : String)
  | nullPointer
  | unfinished

/-- What the checks read beside the graph: the target, and the interface descriptions that can be
compiled. -/
structure Configuration where
  style : CodingStyle
  domain : DomainNames
  compiles : String → Bool

/-- The contents one after the other, with the names of those that are there so far. -/
def checkContents : List String → List Component → Except CheckError Unit
  | _, [] => .ok ⟨⟩
  | names, sc :: rest => do
    reject (sc.nameinowner = "this" ∨ sc.nameinowner ∈ names)
      (.SUBCOMPONENT_INSTANTIATE_TWICE sc.nameinowner)
    reject (sc.kind ≠ .instantiated) .notInstantiated
    checkContents (sc.nameinowner :: names) rest

/-- What the instantiation of a composite makes sure of; nothing is inserted yet. -/
def instantiator : Visitor CheckError where
  travelCommon := fun _ => .ok ⟨⟩
  before := fun place => checkContents [] place.component.contents
  after := fun _ => .ok ⟨⟩

namespace checkinterface

def association : List (String × String) :=
  [("constructor", "lifecycle.constructor"), ("destructor", "lifecycle.destructor"),
    ("starter", "lifecycle.starter"), ("stopper", "lifecycle.stopper")]

def isNMFLifeCycleInterface (type : String) : Bool :=
  association.any fun (_, lifecycle) => lifecycle.toList.isPrefixOf type.toList

def checkProvided (conf : Configuration) (place : Place) (provided : Provide × Nat) :
    Except CheckError Unit := do
  let provide := provided.1
  reject (conf.compiles provide.type = false) (.INTERFACE_NOT_FOUND provide.type)
  checkEach (fun (name, type) => do
    reject ((name = provide.name) ≠ (type = provide.type)) (.NAME_RESERVED_FOR_LIFECYCLE name type)
    reject (name = provide.name ∧ provide.collection = true) (.LCC_WITH_COLLECTION type)
    reject (name = provide.name ∧ place.component.isComposite = true) .LCC_ITF_WITH_COMPOSITE)
    association
  -- two interfaces of one name are told apart by where they stand
  reject (place.component.getProvides.findIdx (fun p => p.name = provide.name) ≠ provided.2)
    (.INTERFACE_PROVIDE_TWICE provide.name)
  reject (provide.collection = true ∧ (provide.numberOfElement ≤ 0 ∨ provide.numberOfElement ≥ 256))
    (.COLLECTION_OUT_OF_RANGE provide.name)
  reject (provide.interrupt = true ∧ provide.type ≠ "exception.handler") .IRQ_ITF_TYPE_WRONG
  reject (provide.interrupt = true ∧ provide.collection = true) .IRQ_ITF_CAN_BE_COLLECTION
  reject (provide.interrupt = true ∧ conf.domain = .mmdsp ∧
      (provide.line < 2 ∨ provide.line > 31 ∨ provide.line ∈ [(2 : Int), 11, 20, 31]))
    .IRQ_LINE_OUT_OF_RANGE
  reject (provide.interrupt = true ∧ conf.domain ≠ .mmdsp ∧ place.getMPC = none) .IRQ_NOT_SUPPORTED
  reject (place.component.isComposite = true ∧ provide.methprefix.length > 0)
    .ITF_PREFIX_IN_COMPOSITE

def checkRequired (conf : Configuration) (place : Place) (required : Require × Nat) :
    Except CheckError Unit := do
  let require := required.1
  reject (conf.compiles require.type = false) (.INTERFACE_NOT_FOUND require.type)
  reject (place.component.getRequires.findIdx (fun r => r.name = require.name) ≠ required.2)
    (.INTERFACE_REQUIRE_TWICE require.name)
  reject (require.isStatic = true ∧
      place.component.getRequires.findIdx (fun r => r.type = require.type) ≠ required.2)
    (.STATIC_INTERFACE_REQUIRE_TWICE require.type)
  reject (require.isStatic = true ∧ require.collection = true) .STATIC_INTERFACE_AS_COLLECTION
  reject (require.collection = true ∧ (require.numberOfElement ≤ 0 ∨ require.numberOfElement ≥ 256))
    (.COLLECTION_OUT_OF_RANGE require.name)
  reject (isNMFLifeCycleInterface require.type = true) (.LCC_CANT_BE_REQUIRED require.type)

def travelCommon (conf : Configuration) (place : Place) : Except CheckError Unit := do
  checkEach (checkProvided conf place) place.component.getProvides.zipIdx
  checkEach (checkRequired conf place) place.component.getRequires.zipIdx

/-- The use of an interface with or without an index. -/
def checkIndex (fullyname name : String) (collection : Bool) (numberOfElement : Int)
    (itfname : ItfName) : Except CheckError Unit :=
  if collection then do
    reject (itfname.index = none) (.WRONG_COLLECTION_USE fullyname name)
    reject (itfname.getIndexOfInterfaceCollection ≥ numberOfElement)
      (.COLLECTION_INDEX_OUT_OF_RANGE (numberOfElement - 1) name)
  else reject (itfname.index ≠ none) (.WRONG_COLLECTION_INDEX_USE name)

def checkRequire (client : Component) (itfname : ItfName) : Except CheckError String :=
  match client.getRequire itfname.getNameOfInterfaceCollection with
  | none => .error (.COMPONENT_NOT_REQUIRE_INTERFACE client.decl.fullyname itfname)
  | some require => do
    checkIndex client.decl.fullyname require.name require.collection require.numberOfElement itfname
    return require.type

def checkProvide (server : Component) (itfname : ItfName) : Except CheckError String :=
  match server.getProvide itfname.getNameOfInterfaceCollection with
  | none => .error (.COMPONENT_NOT_PROVIDE_INTERFACE server.decl.fullyname itfname)
  | some provide => do
    checkIndex server.decl.fullyname provide.name provide.collection provide.numberOfElement itfname
    return provide.type

def MAX_COMMUNICATION_FIFO_SIZE : Int := 256

def MAX_COMMUNICATION_SUBPRIORITY : Int := 4

def getComponent (place : Place) (name : String) : Except CheckError Place :=
  match place.getFcSubComponent name with
  | none => .error (.SUBCOMPONENT_NOT_EXIST name place.component.decl.fullyname)
  | some c => .ok c

/-- The name `this` alone is that of the composite itself. -/
def checkFrom (client : Component) (bind : Bind) : Except CheckError String :=
  if bind.from_ = "this" then checkProvide client bind.fromitf else checkRequire client bind.fromitf

def checkTo (server : Component) (bind : Bind) : Except CheckError String :=
  if bind.to_ = "this" then checkRequire server bind.toitf else checkProvide server bind.toitf

def checkBind (conf : Configuration) (place : Place) (requirebinded : List ItfName) (bind : Bind) :
    Except CheckError Unit := do
  let client ← getComponent place bind.from_
  reject (bind.from_ = "this" ∧ bind.fromitf ∈ requirebinded)
    (.COMPOSITE_REQUIRE_ALREADY_BINDED bind.fromitf)
  let fromtype ← checkFrom client.component bind
  let server ← getComponent place bind.to_
  reject (bind.to_ = "this" ∧ bind.from_ = "this") .PROVIDE_BIND_TO_REQUIRE
  let totype ← checkTo server.component bind
  reject (fromtype ≠ totype) (.INTERFACE_MISMATCH fromtype totype)
  reject (bind.asynchronous = true ∧ (bind.size ≤ 0 ∨ bind.size > MAX_COMMUNICATION_FIFO_SIZE))
    .COMS_OUT_OF_FIFO_SIZE_LIMIT
  reject (bind.asynchronous = true ∧
      (bind.subpriority < 0 ∨ bind.subpriority ≥ MAX_COMMUNICATION_SUBPRIORITY))
    (.COMS_OUT_OF_SUBPRIORITY_LIMIT MAX_COMMUNICATION_SUBPRIORITY)
  reject (conf.style = .cpp ∧ client.getMPC ≠ server.getMPC ∧
      ¬ (bind.to_ = "this" ∧ place.owners = []) ∧ ¬ (bind.from_ = "this" ∧ place.owners = []) ∧
      bind.asynchronous = false)
    (.DISTRIBUTE_BIND_MUSTBE_ASYNCHRONOUS client.getMPC server.getMPC)
  reject (conf.style = .cpp ∧ bind.to_ = "this" ∧ place.owners = [] ∧ bind.asynchronous = true)
    (.CALL_MUSTNOTBE_ASYNCHRONOUS "CallBack")

/-- The binds one after the other, with the interfaces of the composite that are bound so far. -/
def checkBinds (conf : Configuration) (place : Place) :
    List ItfName → List Bind → Except CheckError Unit
  | _, [] => .ok ⟨⟩
  | requirebinded, bind :: binds => do
    checkBind conf place requirebinded bind
    checkBinds conf place
      (if bind.from_ = "this" then bind.fromitf :: requirebinded else requirebinded) binds

def visitor (conf : Configuration) : Visitor CheckError where
  travelCommon := travelCommon conf
  before := fun place => checkBinds conf place [] place.component.getBinds
  after := fun _ => .ok ⟨⟩

end checkinterface

namespace checkbinding

def result : Lookup → Except CheckError (Option InterfaceReference)
  | .unfinished => .error .unfinished
  | .nullPointer => .error .nullPointer
  | .returned ir => .ok ir

def checkRequire (fuel : Nat) (place : Place) (require : Require) (itfName : ItfName) :
    Except CheckError Unit := do
  let itfref ← result (lookupFc fuel place.component place.owners itfName)
  match itfref with
  | none =>
    reject (require.optional = false ∧ require.isIntrinsec = false)
      (.REQUIRED_NOT_BINDED place.component.nameinowner place.component.decl.fullyname require.name
        require.type)
  | some ir =>
    match ir.server with
    -- bound outside the component on top, where nothing can be checked
    | none => .ok ⟨⟩
    | some server =>
      reject (require.isStatic = true ∧ server.component.decl.singleton = false)
        .STATIC_REQUIRED_NOT_BIND_TO_SINGLETON

def travelCommon (fuel : Nat) (place : Place) : Except CheckError Unit :=
  checkEach (fun require => checkEach (checkRequire fuel place require) require.elements)
    place.component.getRequires

def checkProvide (fuel : Nat) (place : Place) (provide : Provide) (itfName : ItfName) :
    Except CheckError Unit := do
  let itfref ← result (getFcInterface fuel place itfName)
  reject (itfref.isNone = true)
    (.TEMPLATE_NOT_BINDED place.component.decl.fullyname provide.name provide.type)

def afterContents (fuel : Nat) (place : Place) : Except CheckError Unit := do
  checkEach (fun provide => checkEach (checkProvide fuel place provide) provide.elements)
    place.component.getProvides
  checkEach (fun require => checkEach (fun itfname => do
    let _ ← result (lookupFc fuel place.component place.owners itfname)
    return ⟨⟩) require.elements) place.component.getRequires

def visitor (fuel : Nat) : Visitor CheckError where
  travelCommon := travelCommon fuel
  before := fun _ => .ok ⟨⟩
  after := afterContents fuel

end checkbinding

/-- A component on top with all that it contains, as it is instantiated. -/
structure Network where
  top : Component
  instantiated : browseComponent instantiator top = .ok ⟨⟩

/-- Both checks pass. -/
structure Accepted (conf : Configuration) (network : Network) : Prop where
  checkinterface : browseComponent (checkinterface.visitor conf) network.top = .ok ⟨⟩
  checkbinding : ∃ fuel, browseComponent (checkbinding.visitor fuel) network.top = .ok ⟨⟩

end Codinalte.Graph
