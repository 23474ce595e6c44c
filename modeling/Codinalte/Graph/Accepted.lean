import Codinalte.Graph.Follow
import Codinalte.Lib.Keyed

/-! What the instantiation and the two checks promise of every component of a network. -/

namespace Codinalte.Graph
open Codinalte.Checks Codinalte.Keyed

/-- The components under a component, with itself. -/
inductive Under : Place → Place → Prop where
  | refl (place : Place) : Under place place
  | sub {place below : Place} {sc : Component} (hsc : sc ∈ place.component.contents)
      (h : Under (place.sub sc) below) : Under place below

section Places
variable {place place' below : Place} {sc : Component}

theorem Under.trans (h : Under place place') (h' : Under place' below) : Under place below := by
  induction h with
  | refl => exact h'
  | sub hsc _ ih => exact .sub hsc (ih h')

theorem Under.content (h : Under place below) (hsc : sc ∈ below.component.contents) :
    Under place (below.sub sc) := h.trans (.sub hsc (.refl _))

theorem Under.owner (h : Under place below) : below = place ∨
    ∃ owner owners, below.owners = owner :: owners ∧ Under place ⟨owner, owners⟩ ∧
      below.component ∈ owner.contents := by
  induction h with
  | refl => exact .inl rfl
  | sub hsc h ih =>
    rename_i place below sc
    rcases ih with rfl | ⟨owner, owners, howners, hunder, hmem⟩
    · exact .inr ⟨place.component, place.owners, rfl, .refl _, hsc⟩
    · exact .inr ⟨owner, owners, howners, .sub hsc hunder, hmem⟩

/-- From the component on top every owner is a component under it. -/
theorem Under.up {top component owner : Component} {owners : List Component}
    (h : Under ⟨top, []⟩ ⟨component, owner :: owners⟩) :
    Under ⟨top, []⟩ ⟨owner, owners⟩ ∧ component ∈ owner.contents := by
  rcases h.owner with heq | ⟨owner', owners', howners, hunder, hmem⟩
  · cases heq
  · cases howners
    exact ⟨hunder, hmem⟩

theorem Under.top_of_nil {top component : Component} (h : Under ⟨top, []⟩ ⟨component, []⟩) :
    component = top := by
  rcases h.owner with heq | ⟨owner, owners, howners, -, -⟩
  · cases heq
    rfl
  · cases howners

theorem getFcSubComponent_cases {scname : String} (h : place.getFcSubComponent scname = some below) :
    (scname = "this" ∧ below = place) ∨
      (scname ≠ "this" ∧ ∃ sc ∈ place.component.contents, sc.nameinowner = scname ∧
        below = place.sub sc) := by
  unfold Place.getFcSubComponent at h
  split at h
  · next hthis => exact .inl ⟨hthis, (Option.some.inj h).symm⟩
  · next hthis =>
    obtain ⟨sc, hfind, rfl⟩ := Option.map_eq_some_iff.mp h
    have hname := List.find?_some hfind
    exact .inr ⟨hthis, sc, List.mem_of_find?_eq_some hfind, of_decide_eq_true hname, rfl⟩

theorem Under.getFcSubComponent {top : Place} {scname : String} (h : Under top place)
    (hsc : place.getFcSubComponent scname = some below) : Under top below := by
  rcases getFcSubComponent_cases hsc with ⟨-, rfl⟩ | ⟨-, sc, hmem, -, rfl⟩
  · exact h
  · exact h.content hmem

end Places

section Visits
variable {E : Type} {visitor : Visitor E} {place below : Place}

theorem travelEach_ok {owners components : List Component}
    (h : travelEach visitor owners components = .ok ⟨⟩) {sc : Component} (hsc : sc ∈ components) :
    travelComponent visitor owners sc = .ok ⟨⟩ := by
  induction components with
  | nil => cases hsc
  | cons first rest ih =>
    unfold travelEach at h
    obtain ⟨hfirst, hrest⟩ := seq_ok.mp h
    rcases List.mem_cons.mp hsc with rfl | hmem
    · exact hfirst
    · exact ih hrest hmem

/-- What a pass made sure of at a component. -/
structure Passed (visitor : Visitor E) (place : Place) : Prop where
  travelCommon : place.component.isFirstInstance = true → visitor.travelCommon place = .ok ⟨⟩
  before : place.component.isComposite = true → visitor.before place = .ok ⟨⟩
  after : place.component.isComposite = true → visitor.after place = .ok ⟨⟩

theorem travelComponent_ok (h : travelComponent visitor place.owners place.component = .ok ⟨⟩) :
    Passed visitor place ∧ ∀ sc ∈ place.component.contents,
      travelComponent visitor (place.component :: place.owners) sc = .ok ⟨⟩ := by
  obtain ⟨component, owners⟩ := place
  cases component with
  | raw decl isFirstInstance kind =>
    refine ⟨⟨fun hfirst => ?_, (fun h => nomatch h), fun h => nomatch h⟩, fun _ h => nomatch h⟩
    have hfirst' : isFirstInstance = true := hfirst
    simp only [travelComponent, if_pos hfirst'] at h
    exact h
  | composite decl binds subcomponents controllercomponents =>
    simp only [travelComponent] at h
    obtain ⟨hcommon, h⟩ := seq_ok.mp h
    obtain ⟨hbefore, h⟩ := seq_ok.mp h
    obtain ⟨hsubs, h⟩ := seq_ok.mp h
    obtain ⟨hcontrollers, hafter⟩ := seq_ok.mp h
    refine ⟨⟨fun _ => hcommon, fun _ => hbefore, fun _ => hafter⟩, fun sc hsc => ?_⟩
    rcases List.mem_append.mp hsc with hsc | hsc
    · exact travelEach_ok hsubs hsc
    · exact travelEach_ok hcontrollers hsc

/-- A pass that ends without an error has been at every component. -/
theorem passed_of_ok (h : travelComponent visitor place.owners place.component = .ok ⟨⟩)
    (hbelow : Under place below) : Passed visitor below := by
  induction hbelow with
  | refl => exact (travelComponent_ok h).1
  | sub hsc _ ih => exact ih ((travelComponent_ok h).2 _ hsc)

theorem passed_of_browse {top : Component} (h : browseComponent visitor top = .ok ⟨⟩)
    (hbelow : Under ⟨top, []⟩ below) : Passed visitor below := by
  have hok : travelComponent visitor (Place.mk top []).owners (Place.mk top []).component =
      .ok ⟨⟩ := h
  exact passed_of_ok hok hbelow

end Visits

section Names
variable {network : Network} {place : Place}

theorem checkContents_ok {names : List String} {components : List Component}
    (h : checkContents names components = .ok ⟨⟩) :
    (components.map Component.nameinowner).Nodup ∧
      ∀ sc ∈ components, sc.nameinowner ≠ "this" ∧ sc.nameinowner ∉ names ∧
        sc.kind = .instantiated := by
  induction components generalizing names with
  | nil => exact ⟨.nil, fun _ h => nomatch h⟩
  | cons first rest ih =>
    unfold checkContents at h
    obtain ⟨hfirst, h⟩ := seq_ok.mp h
    obtain ⟨hkind, hrest⟩ := seq_ok.mp h
    obtain ⟨hthis, hnames⟩ := not_or.mp (reject_ok.mp hfirst)
    obtain ⟨hnodup, hother⟩ := ih hrest
    refine ⟨List.nodup_cons.mpr ⟨fun hmem => ?_, hnodup⟩, fun sc hsc => ?_⟩
    · obtain ⟨sc, hsc, heq⟩ := List.mem_map.mp hmem
      exact (hother sc hsc).2.1 (heq ▸ List.mem_cons_self)
    · rcases List.mem_cons.mp hsc with rfl | hmem
      · exact ⟨hthis, hnames, not_not.mp (reject_ok.mp hkind)⟩
      · obtain ⟨hthis', hnames', hkind'⟩ := hother sc hmem
        exact ⟨hthis', fun h => hnames' (List.mem_cons_of_mem _ h), hkind'⟩

theorem Network.names (network : Network) (h : Under ⟨network.top, []⟩ place) :
    (place.component.contents.map Component.nameinowner).Nodup ∧
      ∀ sc ∈ place.component.contents, sc.nameinowner ≠ "this" ∧ sc.kind = .instantiated := by
  have hpassed := passed_of_browse network.instantiated h
  obtain ⟨component, owners⟩ := place
  cases component with
  | raw decl isFirstInstance kind => exact ⟨.nil, fun _ h => nomatch h⟩
  | composite decl binds subcomponents controllercomponents =>
    obtain ⟨hnodup, hother⟩ := checkContents_ok (hpassed.before rfl)
    exact ⟨hnodup, fun sc hsc => ⟨(hother sc hsc).1, (hother sc hsc).2.2⟩⟩

/-- A content is what is found under its name. -/
theorem Network.getFcSubComponent_self (network : Network) (h : Under ⟨network.top, []⟩ place)
    {sc : Component} (hsc : sc ∈ place.component.contents) :
    place.getFcSubComponent sc.nameinowner = some (place.sub sc) := by
  obtain ⟨hnodup, hthis⟩ := network.names h
  unfold Place.getFcSubComponent
  rw [if_neg (hthis sc hsc).1, find_of_mem hnodup hsc]
  rfl

end Names

section Interfaces

/-- The index fits the interface. -/
def IndexFits (collection : Bool) (numberOfElement : Int) (itfname : ItfName) : Prop :=
  if collection then itfname.index ≠ none ∧ itfname.getIndexOfInterfaceCollection < numberOfElement
  else itfname.index = none

def Requires (component : Component) (itfname : ItfName) (type : String) : Prop :=
  ∃ require, component.getRequire itfname.getNameOfInterfaceCollection = some require ∧
    require.type = type ∧ IndexFits require.collection require.numberOfElement itfname

def Provides (component : Component) (itfname : ItfName) (type : String) : Prop :=
  ∃ provide, component.getProvide itfname.getNameOfInterfaceCollection = some provide ∧
    provide.type = type ∧ IndexFits provide.collection provide.numberOfElement itfname

variable {component : Component} {itfname : ItfName} {type type' : String}

theorem Requires.unique (h : Requires component itfname type)
    (h' : Requires component itfname type') : type = type' := by
  obtain ⟨require, hrequire, rfl, -⟩ := h
  obtain ⟨require', hrequire', rfl, -⟩ := h'
  cases hrequire.symm.trans hrequire'
  rfl

theorem Provides.unique (h : Provides component itfname type)
    (h' : Provides component itfname type') : type = type' := by
  obtain ⟨provide, hprovide, rfl, -⟩ := h
  obtain ⟨provide', hprovide', rfl, -⟩ := h'
  cases hprovide.symm.trans hprovide'
  rfl

open checkinterface

theorem checkIndex_ok {fullyname name : String} {collection : Bool} {numberOfElement : Int}
    (h : checkIndex fullyname name collection numberOfElement itfname = .ok ⟨⟩) :
    IndexFits collection numberOfElement itfname := by
  unfold checkIndex at h
  unfold IndexFits
  cases collection with
  | true =>
    simp only [if_true] at h ⊢
    obtain ⟨hindex, hlt⟩ := seq_ok.mp h
    exact ⟨reject_ok.mp hindex, Int.not_le.mp (reject_ok.mp hlt)⟩
  | false =>
    simp only [Bool.false_eq_true, if_false] at h ⊢
    exact not_not.mp (reject_ok.mp h)

theorem checkRequire_ok (h : checkRequire component itfname = .ok type) :
    Requires component itfname type := by
  unfold checkRequire at h
  split at h
  · cases h
  · next require hrequire =>
    obtain ⟨hindex, htype⟩ := seq_ok.mp h
    exact ⟨require, hrequire, Except.ok.inj htype, checkIndex_ok hindex⟩

theorem checkProvide_ok (h : checkProvide component itfname = .ok type) :
    Provides component itfname type := by
  unfold checkProvide at h
  split at h
  · cases h
  · next provide hprovide =>
    obtain ⟨hindex, htype⟩ := seq_ok.mp h
    exact ⟨provide, hprovide, Except.ok.inj htype, checkIndex_ok hindex⟩

/-- What the check of a bind makes sure of. -/
structure BindFits (place : Place) (bind : Bind) (client server : Place) (type : String) : Prop where
  isClient : place.getFcSubComponent bind.from_ = some client
  isServer : place.getFcSubComponent bind.to_ = some server
  apart : bind.from_ = "this" → bind.to_ ≠ "this"
  fromtype : if bind.from_ = "this" then Provides client.component bind.fromitf type
    else Requires client.component bind.fromitf type
  totype : if bind.to_ = "this" then Requires server.component bind.toitf type
    else Provides server.component bind.toitf type

variable {conf : Configuration} {place : Place} {bind : Bind}

theorem getComponent_ok {name : String} {c : Place} (h : getComponent place name = .ok c) :
    place.getFcSubComponent name = some c := by
  unfold getComponent at h
  split at h
  · cases h
  · next hc => exact hc.trans (congrArg some (Except.ok.inj h))

theorem checkBind_ok {requirebinded : List ItfName}
    (h : checkBind conf place requirebinded bind = .ok ⟨⟩) :
    ∃ client server type, BindFits place bind client server type := by
  unfold checkBind at h
  obtain ⟨client, hclient, h⟩ := bind_ok.mp h
  obtain ⟨-, h⟩ := seq_ok.mp h
  obtain ⟨fromtype, hfromtype, h⟩ := bind_ok.mp h
  obtain ⟨server, hserver, h⟩ := bind_ok.mp h
  obtain ⟨hapart, h⟩ := seq_ok.mp h
  obtain ⟨totype, htotype, h⟩ := bind_ok.mp h
  obtain ⟨hsame, -⟩ := seq_ok.mp h
  have hsame' : fromtype = totype := not_not.mp (reject_ok.mp hsame)
  refine ⟨client, server, fromtype, getComponent_ok hclient, getComponent_ok hserver, ?_, ?_, ?_⟩
  · exact fun hfrom hto => reject_ok.mp hapart ⟨hto, hfrom⟩
  · unfold checkFrom at hfromtype
    split at hfromtype
    · next hthis =>
      rw [if_pos hthis]
      exact checkProvide_ok hfromtype
    · next hthis =>
      rw [if_neg hthis]
      exact checkRequire_ok hfromtype
  · rw [hsame']
    unfold checkTo at htotype
    split at htotype
    · next hthis =>
      rw [if_pos hthis]
      exact checkRequire_ok htotype
    · next hthis =>
      rw [if_neg hthis]
      exact checkProvide_ok htotype

theorem checkBinds_ok {requirebinded : List ItfName} {binds : List Bind}
    (h : checkBinds conf place requirebinded binds = .ok ⟨⟩) (hbind : bind ∈ binds) :
    ∃ client server type, BindFits place bind client server type := by
  induction binds generalizing requirebinded with
  | nil => cases hbind
  | cons first rest ih =>
    unfold checkBinds at h
    obtain ⟨hfirst, hrest⟩ := seq_ok.mp h
    rcases List.mem_cons.mp hbind with rfl | hmem
    · exact checkBind_ok hfirst
    · exact ih hrest hmem

variable {network : Network}

/-- The binds of every composite fit. -/
theorem Accepted.bindFits (h : Accepted conf network) (hplace : Under ⟨network.top, []⟩ place)
    (hbind : bind ∈ place.component.getBinds) :
    ∃ client server type, BindFits place bind client server type := by
  have hpassed := passed_of_browse h.checkinterface hplace
  obtain ⟨component, owners⟩ := place
  cases component with
  | raw decl isFirstInstance kind => cases hbind
  | composite decl binds subcomponents controllercomponents =>
    exact checkBinds_ok (hpassed.before rfl) hbind

theorem first_of_findIdx {α : Type} {l : List α} {p : α → Bool} {a : α} {i : Nat}
    (hmem : (a, i) ∈ l.zipIdx) (h : l.findIdx p = i) : l.find? p = some a := by
  rw [List.find?_eq_getElem?_findIdx, h]
  exact List.mk_mem_zipIdx_iff_getElem?.mp hmem

/-- A component that is visited requires no two interfaces of one name. -/
theorem Accepted.getRequire_self (h : Accepted conf network)
    (hplace : Under ⟨network.top, []⟩ place) (hfirst : place.component.isFirstInstance = true)
    {require : Require} (hrequire : require ∈ place.component.getRequires) :
    place.component.getRequire require.name = some require := by
  have hcommon := (passed_of_browse h.checkinterface hplace).travelCommon hfirst
  obtain ⟨-, hrequires⟩ := seq_ok.mp hcommon
  obtain ⟨i, hi⟩ := List.getElem?_of_mem hrequire
  have hmem := List.mk_mem_zipIdx_iff_getElem?.mpr hi
  have hchecked := checkEach_ok.mp hrequires _ hmem
  unfold checkRequired at hchecked
  obtain ⟨-, hchecked⟩ := seq_ok.mp hchecked
  obtain ⟨htwice, -⟩ := seq_ok.mp hchecked
  exact first_of_findIdx hmem (not_not.mp (reject_ok.mp htwice))

end Interfaces

end Codinalte.Graph
