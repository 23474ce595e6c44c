import Codinalte.Idl.EventShapes
import Codinalte.Idl.Execution

/-! The copies of an asynchronous event run: the reaction hands on what the posting code saw. -/

namespace Codinalte.Idl
open Codinalte.Stores

namespace Event
variable {V : Type} {style : Style} {right : Location → V}

theorem readParameter_location (style : Style) (type : IdlType) (name : Name) (i : Nat → Int) :
    (Idl.readParameter style type name).location i = name.location i := by
  cases style <;> cases type <;> rfl

theorem readParameter_levels (style : Style) (type : IdlType) (name : Name) :
    (Idl.readParameter style type name).levels = name.levels := by
  cases style <;> cases type <;> rfl

theorem below_element {name : Name} {l : Nat} (h : Below name.levels l) :
    Below (Name.element name l).levels (l + 1) :=
  (h.mono (Nat.le_succ l)).cons (Nat.lt_succ_self l)

/-- The loop variables of the copies are those that `checkData` counts. -/
theorem writeData_below (bound : Nat) : ∀ (type : IdlType) (leftname rightname : Name)
    (arraylevel : Nat), Below leftname.levels arraylevel → Below rightname.levels arraylevel →
      arraylevel + checkData type ≤ bound →
      Below (writeData style type leftname rightname arraylevel).levels bound
  | .named type, leftname, rightname, arraylevel, hleft, hright, hle =>
    writeData_below bound type leftname rightname arraylevel hleft hright hle
  | .typedef type, leftname, rightname, arraylevel, hleft, hright, hle =>
    writeData_below bound type leftname rightname arraylevel hleft hright hle
  | .const type, leftname, rightname, arraylevel, hleft, hright, hle =>
    writeData_below bound type leftname rightname arraylevel hleft hright hle
  | .reference type, leftname, rightname, arraylevel, hleft, hright, hle => by
    refine writeData_below bound type leftname _ arraylevel hleft ?_ hle
    rw [readParameter_levels]
    exact hright
  | .array type n, leftname, rightname, arraylevel, hleft, hright, hle => by
    have hcount : checkData (.array type n) = 1 + checkData type := rfl
    have hbody := writeData_below bound type _ _ (arraylevel + 1) (below_element hleft)
      (below_element hright) (by omega)
    exact hbody.cons (by omega)
  | .primitive _, _, _, _, hleft, hright, hle => (hleft.append hright).mono hle
  | .pointer, _, _, _, hleft, hright, hle => (hleft.append hright).mono hle
  | .structure _, _, _, _, hleft, hright, hle => (hleft.append hright).mono hle
  | .enumeration, _, _, _, hleft, hright, hle => (hleft.append hright).mono hle
  | .other, _, _, _, hleft, hright, hle => (hleft.append hright).mono hle

/-- What the copies store, from the left side on. -/
def copied (right : Location → V) (location : Location) (paths : List Location) :
    List (Location × V) :=
  paths.map fun path => (location ++ path, right (location ++ path))

/-- The copies have stored the values under these paths, and the outer loop variables are as they
were. -/
structure Stores (right : Location → V) (location : Location) (paths : List Location)
    (arraylevel : Nat) (f f' : Frame V) : Prop where
  i : ∀ l < arraylevel, f'.i l = f.i l
  left : f'.left = store f.left (copied right location paths)

theorem stores_copy {leftname rightname : Name} {f : Frame V} {arraylevel : Nat}
    (hlocation : rightname.location f.i = leftname.location f.i) :
    Stores right (leftname.location f.i) [[]] arraylevel f
      ((Copies.copy leftname rightname).exec right f) where
  i := fun _ _ => rfl
  left := by
    simp only [Copies.exec, copied, List.map_cons, List.map_nil, List.append_nil, store_cons,
      store_nil, hlocation]

theorem copied_under (location : Location) (step : Step) (paths : List Location) :
    copied right (location ++ [step]) paths = copied right location (paths.map (step :: ·)) := by
  simp only [copied, List.map_map, Function.comp_def, List.append_assoc, List.singleton_append]

/-- One round after the other, each for an element of the array. -/
theorem stores_loop (type : IdlType) {leftname : Name} {arraylevel : Nat} {body : Copies}
    (hleft : Below leftname.levels arraylevel)
    (hbody : ∀ f : Frame V, Stores right ((Name.element leftname arraylevel).location f.i)
      (leaves type) (arraylevel + 1) f (body.exec right f)) (sizeInteger : Nat) (f : Frame V) :
    Stores right (leftname.location f.i) (leaves (.array type sizeInteger)) arraylevel f
      ((List.range sizeInteger).foldl (fun (f : Frame V) (n : Nat) =>
        body.exec right { f with i := Function.update f.i arraylevel n }) f) := by
  induction sizeInteger with
  | zero => exact ⟨fun _ _ => rfl, rfl⟩
  | succ n ih =>
    rw [List.range_succ, List.foldl_append, List.foldl_cons, List.foldl_nil]
    generalize (List.range n).foldl (fun (f : Frame V) (n : Nat) =>
      body.exec right { f with i := Function.update f.i arraylevel n }) f = g at ih ⊢
    have hround := hbody { g with i := Function.update g.i arraylevel n }
    have hlocation : (Name.element leftname arraylevel).location
        (Function.update g.i arraylevel n) = leftname.location f.i ++ [.element n] := by
      have hname : leftname.location (Function.update g.i arraylevel n) =
          leftname.location f.i := by
        refine location_congr fun l hl => ?_
        have hlt := hleft l hl
        exact (Function.update_of_ne (Nat.ne_of_lt hlt) _ _).trans (ih.i l hlt)
      simp only [Name.location, hname, Function.update_self]
    have hleaves : leaves (.array type (n + 1)) =
        leaves (.array type n) ++ (leaves type).map (Step.element n :: ·) := by
      simp only [leaves, List.range_succ, List.flatMap_append, List.flatMap_singleton]
    constructor
    · intro l hl
      have hbefore := hround.i l (Nat.lt_succ_of_lt hl)
      rw [hbefore]
      exact (Function.update_of_ne (Nat.ne_of_lt hl) _ _).trans (ih.i l hl)
    · have hstored := hround.left
      rw [hlocation, copied_under] at hstored
      rw [hstored, ih.left, ← store_append, hleaves]
      exact congrArg (store f.left) List.map_append.symm

/-- The posting code stores each value of a parameter. -/
theorem exec_writeData : ∀ (type : IdlType) (leftname rightname : Name) (arraylevel : Nat)
    (f : Frame V), Below leftname.levels arraylevel → Below rightname.levels arraylevel →
      (∀ i, rightname.location i = leftname.location i) →
      Stores right (leftname.location f.i) (leaves type) arraylevel f
        ((writeData style type leftname rightname arraylevel).exec right f)
  | .named type, leftname, rightname, arraylevel, f, hleft, hright, hsame =>
    exec_writeData type leftname rightname arraylevel f hleft hright hsame
  | .typedef type, leftname, rightname, arraylevel, f, hleft, hright, hsame =>
    exec_writeData type leftname rightname arraylevel f hleft hright hsame
  | .const type, leftname, rightname, arraylevel, f, hleft, hright, hsame =>
    exec_writeData type leftname rightname arraylevel f hleft hright hsame
  | .reference type, leftname, rightname, arraylevel, f, hleft, hright, hsame => by
    refine exec_writeData type leftname _ arraylevel f hleft ?_ ?_
    · rw [readParameter_levels]
      exact hright
    · intro i
      rw [readParameter_location]
      exact hsame i
  | .array type n, leftname, rightname, arraylevel, f, hleft, hright, hsame => by
    have hsame' : ∀ i, (Name.element rightname arraylevel).location i =
        (Name.element leftname arraylevel).location i :=
      fun i => congrArg (· ++ [Step.element (i arraylevel)]) (hsame i)
    have hloop := stores_loop type hleft (fun g => exec_writeData type _ _
      (arraylevel + 1) g (below_element hleft) (below_element hright) hsame') n f
    refine ⟨fun l hl => ?_, hloop.left⟩
    exact (Function.update_of_ne (Nat.ne_of_lt hl) _ _).trans (hloop.i l hl)
  | .primitive _, _, _, _, f, _, _, hsame => stores_copy (hsame f.i)
  | .pointer, _, _, _, f, _, _, hsame => stores_copy (hsame f.i)
  | .structure _, _, _, _, f, _, _, hsame => stores_copy (hsame f.i)
  | .enumeration, _, _, _, f, _, _, hsame => stores_copy (hsame f.i)
  | .other, _, _, _, f, _, _, hsame => stores_copy (hsame f.i)

/-- The parameters one after the other. -/
theorem eachParameter_stores {right : Location → V} {emitted : IdlType → Nat → Copies}
    (h : ∀ type k (f : Frame V),
      Stores right [.parameter k] (leaves type) 0 f ((emitted type k).exec right f))
    (types : List IdlType) (k : Nat) (f : Frame V) :
    (eachParameter emitted right types k f).left =
      store f.left ((parameterLeaves types k).map fun path => (path, right path)) := by
  induction types generalizing k f with
  | nil => rfl
  | cons type types ih =>
    have htype := (h type k f).left
    have hpaths : copied right [.parameter k] (leaves type) =
        ((leaves type).map (Step.parameter k :: ·)).map fun path => (path, right path) := by
      simp only [copied, List.map_map, Function.comp_def, List.singleton_append]
    rw [hpaths] at htype
    have hall : parameterLeaves (type :: types) k =
        (leaves type).map (Step.parameter k :: ·) ++ parameterLeaves types (k + 1) := rfl
    rw [eachParameter, ih, htype, ← store_append, hall]
    exact congrArg (store f.left) List.map_append.symm

theorem writeParameter_stores (style : Style) (type : IdlType) (k : Nat) (f : Frame V) :
    Stores right [.parameter k] (leaves type) 0 f ((writeParameter style type k).exec right f) :=
  exec_writeData type (.parameter k) (.parameter k) 0 f below_nil below_nil fun _ => rfl

theorem readParameter_stores (type : IdlType) (k : Nat) (f : Frame V) :
    Stores right [.parameter k] (leaves type) 0 f ((readParameter type k).exec right f) := by
  unfold readParameter
  rw [readData_eq]
  exact writeParameter_stores .cpp type k f

variable {types : List IdlType} {path : Location} {m : Memory V}

theorem post_data (h : path ∈ parameterLeaves types 0) :
    (post style types m).data path = m.caller path := by
  have hstores : (post style types m).data =
      store m.data ((parameterLeaves types 0).map fun path => (path, m.caller path)) :=
    eachParameter_stores (writeParameter_stores style) types 0 ⟨fun _ => 0, m.data⟩
  refine (congrFun hstores path).trans (store_of_agree ?_ ?_)
  · intro p hp
    obtain ⟨q, -, rfl⟩ := List.mem_map.mp hp
    rfl
  · rw [List.map_map]
    exact List.mem_map.mpr ⟨path, h, rfl⟩

theorem react_locals (h : path ∈ parameterLeaves types 0) :
    (react types m).locals path = m.data path := by
  have hstores : (react types m).locals =
      store m.locals ((parameterLeaves types 0).map fun path => (path, m.data path)) :=
    eachParameter_stores readParameter_stores types 0 ⟨fun _ => 0, m.locals⟩
  refine (congrFun hstores path).trans (store_of_agree ?_ ?_)
  · intro p hp
    obtain ⟨q, -, rfl⟩ := List.mem_map.mp hp
    rfl
  · rw [List.map_map]
    exact List.mem_map.mpr ⟨path, h, rfl⟩

/-- The loop variables that the method declares. -/
def dim (types : List IdlType) : Nat :=
  types.foldl (fun dim type => max dim (checkData type)) 0

/-- The text of a method goes through the compiler with the loop variables it declares, and the
target sees what the caller passed, whatever the caller has done to it since. -/
structure Delivered (style : Style) (types : List IdlType) : Prop where
  compiles : ∀ type ∈ types, Compiles style type
  declared : ∀ type ∈ types, ∀ k, Below (writeParameter style type k).levels (dim types) ∧
    Below (readParameter type k).levels (dim types)
  values : ∀ {V : Type} (m : Memory V) (later : Location → V), ∀ path ∈ parameterLeaves types 0,
    (react types { post style types m with caller := later }).locals path = m.caller path

theorem checkData_le_dim {type : IdlType} (h : type ∈ types) : checkData type ≤ dim types := by
  have hgrows : ∀ (l : List IdlType) (n : Nat),
      n ≤ l.foldl (fun dim type => max dim (checkData type)) n ∧
        ∀ t ∈ l, checkData t ≤ l.foldl (fun dim type => max dim (checkData type)) n := by
    intro l
    induction l with
    | nil => exact fun n => ⟨Nat.le_refl n, fun _ h => nomatch h⟩
    | cons t l ih =>
      intro n
      obtain ⟨hmax, hrest⟩ := ih (max n (checkData t))
      refine ⟨Nat.le_trans (Nat.le_max_left ..) hmax, fun u hu => ?_⟩
      rcases List.mem_cons.mp hu with rfl | hu
      · exact Nat.le_trans (Nat.le_max_right ..) hmax
      · exact hrest u hu
  exact (hgrows types 0).2 type h

theorem delivered_iff :
    Delivered style types ↔ ∀ type ∈ types, type.Kept style := by
  constructor
  · exact fun h type ht => (compiles_iff type).mp (h.compiles type ht)
  · intro h
    refine ⟨fun type ht => (compiles_iff type).mpr (h type ht), fun type ht k => ?_, ?_⟩
    · have hle : 0 + checkData type ≤ dim types := by
        rw [Nat.zero_add]
        exact checkData_le_dim ht
      refine ⟨writeData_below _ type _ _ 0 below_nil below_nil hle, ?_⟩
      unfold readParameter
      rw [readData_eq]
      exact writeData_below _ type _ _ 0 below_nil below_nil hle
    · intro V m later path hpath
      exact (react_locals hpath).trans (post_data hpath)

end Event

end Codinalte.Idl
