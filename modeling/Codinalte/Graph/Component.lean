import Codinalte.Idl.Types

/-! The instantiated components, their interfaces and binds, and how a required interface is
followed to the component that serves it. -/

namespace Codinalte.Graph
open Codinalte.Idl (javaInt)

inductive CodingStyle where
  | c
  | cpp
deriving DecidableEq

inductive DomainNames where
  | mmdsp
  | hostEE
  | embeddedC
  | embeddedCpp
  | eeCpp
deriving DecidableEq

/-- The name of an interface as it is compared: with its index in brackets, or without one. -/
structure ItfName where
  name : String
  index : Option Int
deriving DecidableEq

/-- The serialized form of a name with the index that was parsed. -/
def serialize (name : String) (index : Option Nat) : ItfName :=
  match index with
  | none => ⟨name, none⟩
  | some n => if javaInt n = -1 then ⟨name, none⟩ else ⟨name, some (javaInt n)⟩

namespace ItfName

def getNameOfInterfaceCollection (itfname : ItfName) : String := itfname.name

def getIndexOfInterfaceCollection (itfname : ItfName) : Int := itfname.index.getD (-1)

end ItfName

structure Provide where
  type : String
  name : String
  collection : Bool
  numberOfElement : Int
  methprefix : String
  interrupt : Bool
  line : Int
deriving DecidableEq

structure Require where
  type : String
  name : String
  collection : Bool
  numberOfElement : Int
  optional : Bool
  isStatic : Bool
  isIntrinsec : Bool
  virtualInterface : Bool
deriving DecidableEq

/-- The elements of a required interface that are bound one by one. -/
def Require.elements (require : Require) : List ItfName :=
  if require.collection then
    (List.range require.numberOfElement.toNat).map fun (i : Nat) => ⟨require.name, some (i : Int)⟩
  else [⟨require.name, none⟩]

def Provide.elements (provide : Provide) : List ItfName :=
  if provide.collection then
    (List.range provide.numberOfElement.toNat).map fun (i : Nat) => ⟨provide.name, some (i : Int)⟩
  else [⟨provide.name, none⟩]

structure Bind where
  from_ : String
  fromitf : ItfName
  to_ : String
  toitf : ItfName
  asynchronous : Bool
  size : Int
  subpriority : Int
  trace : Bool
deriving DecidableEq

def astbind (from_ : String) (fromitf : String × Option Nat) (to_ : String)
    (toitf : String × Option Nat) : Bind where
  from_ := from_
  fromitf := serialize fromitf.1 fromitf.2
  to_ := to_
  toitf := serialize toitf.1 toitf.2
  asynchronous := false
  size := 4
  subpriority := 0
  trace := false

/-- What all components have. -/
structure Declaration where
  nameinowner : String
  fullyname : String
  singleton : Bool
  localmpc : Option String
  priority : String
  requires : List Require
  provides : List Provide
deriving DecidableEq

/-- What a component without contents is: one that is instantiated (a primitive, or a component on
an MPC), or one of those that are inserted in the binds of a composite, with what its code is made
from. -/
inductive Kind where
  | instantiated
  | event (itf : String) (size subpriority : Int)
  | trace (itf : String)
  | proxystub (itf client : String) (clientitfname : ItfName) (server : String)
      (serveritfname : ItfName) (size : Int)
  | proxyskel (itf client : String) (clientitfname : ItfName) (server : String)
      (serveritfname : ItfName) (size : Int)
  | proxybind (client : String) (clientitfname : ItfName) (server : String)
      (serveritfname : ItfName) (size : Int) (asynchronous : Bool)
  | call (itf : String) (asynchronous : Bool) (onMPC : Bool)
  | callback (itf : String) (asynchronous : Bool) (optional : Bool)
deriving DecidableEq

/-- A component without contents, or a composite. Only a primitive can be a later instance of a
singleton. -/
inductive Component where
  | raw (decl : Declaration) (isFirstInstance : Bool) (kind : Kind)
  | composite (decl : Declaration) (binds : List Bind) (subcomponents : List Component)
      (controllercomponents : List Component)

namespace Component

def decl : Component → Declaration
  | .raw decl _ _ => decl
  | .composite decl _ _ _ => decl

def nameinowner (c : Component) : String := c.decl.nameinowner

def isFirstInstance : Component → Bool
  | .raw _ isFirstInstance _ => isFirstInstance
  | .composite .. => true

def kind : Component → Kind
  | .raw _ _ kind => kind
  | .composite .. => .instantiated

def isComposite : Component → Bool
  | .raw .. => false
  | .composite .. => true

def getBinds : Component → List Bind
  | .raw .. => []
  | .composite _ binds _ _ => binds

/-- The contents, in the order in which they are looked through. -/
def contents : Component → List Component
  | .raw .. => []
  | .composite _ _ subcomponents controllercomponents => subcomponents ++ controllercomponents

def getRequires (c : Component) : List Require := c.decl.requires

def getProvides (c : Component) : List Provide := c.decl.provides

def getRequire (c : Component) (itfname : String) : Option Require :=
  c.getRequires.find? fun require => require.name = itfname

def getRequireByType (c : Component) (type : String) : Option Require :=
  c.getRequires.find? fun require => require.type = type

def getProvide (c : Component) (itfname : String) : Option Provide :=
  c.getProvides.find? fun provide => provide.name = itfname

end Component

/-- A component where it stands, with its owners from the inside out. -/
structure Place where
  component : Component
  owners : List Component

namespace Place

/-- The place of one of the contents. -/
def sub (place : Place) (sc : Component) : Place := ⟨sc, place.component :: place.owners⟩

def getMPC (place : Place) : Option String :=
  (place.component :: place.owners).findSome? fun c => c.decl.localmpc

def getFcSubComponent (place : Place) (scname : String) : Option Place :=
  if scname = "this" then some place
  else (place.component.contents.find? fun sc => sc.nameinowner = scname).map place.sub

end Place

/-- What a lookup finds: `server` is unset for an interface of the component on top. -/
structure InterfaceReference where
  server : Option Place
  itfname : String
  collectionIndex : Int

/-- How a lookup ends. -/
inductive Lookup where
  | unfinished
  | nullPointer
  | returned (ir : Option InterfaceReference)

/-- The first bind of a client interface. -/
def bindOf (binds : List Bind) (from_ : String) (fromitf : ItfName) : Option Bind :=
  binds.find? fun sb => sb.from_ = from_ ∧ sb.fromitf = fromitf

def getFcInterface : Nat → Place → ItfName → Lookup
  | 0, _, _ => .unfinished
  | fuel + 1, place, servername =>
    match place.component, place.component.getProvide servername.getNameOfInterfaceCollection with
    | _, none => .returned none
    | .raw .., some provide =>
      .returned (some ⟨some place, provide.name, servername.getIndexOfInterfaceCollection⟩)
    | .composite _ binds _ _, some _ =>
      match bindOf binds "this" servername with
      | none => .returned none
      | some sb =>
        match place.getFcSubComponent sb.to_ with
        | none => .nullPointer
        | some sc => getFcInterface fuel sc sb.toitf

/-- Follows a client interface through the owners of its component. -/
def lookupFc (fuel : Nat) (component : Component) : List Component → ItfName → Lookup
  | [], clientname =>
    match component.getRequire clientname.getNameOfInterfaceCollection with
    | none => .nullPointer
    | some require =>
      .returned (some ⟨none, require.name, clientname.getIndexOfInterfaceCollection⟩)
  | owner :: owners, clientname =>
    match bindOf owner.getBinds component.nameinowner clientname with
    | none => .returned none
    | some sb =>
      if sb.to_ = "this" then lookupFc fuel owner owners sb.toitf
      else
        match (Place.mk owner owners).getFcSubComponent sb.to_ with
        | none => .nullPointer
        | some sc => getFcInterface fuel sc sb.toitf

end Codinalte.Graph
