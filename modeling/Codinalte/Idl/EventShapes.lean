import Codinalte.Idl.Events

/-! Which parameters of an asynchronous event go through the compiler: the declared type has the
arrays over which the copies loop, and a value that can be assigned under them. -/

namespace Codinalte.Idl

/-- Printed as the text of a pointer type, where `const` does no harm. -/
def IdlType.Address : IdlType → Prop
  | .pointer => True
  | .const type => type.Address
  | .named type => type.Address
  | _ => False

/-- No `const` but before a pointer, no reference, no structure that cannot be assigned, and arrays
only in a typedef or, with `arrays`, around the type. -/
def IdlType.Copied (style : Style) : Bool → IdlType → Prop
  | arrays, .array type _ => arrays = true ∧ type.Copied style true
  | _, .named type => type.Copied style false
  | _, .typedef type => type.Copied style true
  | _, .const type => type.Address
  | _, .structure members => assignableMembers style members = true
  | _, .reference _ => False
  | _, _ => True

/-- A reference may stand around the whole, if there is no array around it. -/
def IdlType.Kept (style : Style) : IdlType → Prop
  | .array type _ => type.Copied style true
  | .reference type => type.Copied style false
  | type => type.Copied style false

/-- Arrays over a value that can be assigned. -/
def Shape.Clean : Shape → Prop
  | .value => True
  | .record assignable => assignable = true
  | .array _ s => s.Clean
  | _ => False

/-- What lies under as many arrays. -/
def Shape.peel : Nat → Shape → Option Shape
  | 0, s => some s
  | n + 1, s => s.element.bind (Shape.peel n)

section Printed
variable {style : Style} {s : Shape}

theorem dimensions_append (dims dims' : List Nat) :
    s.dimensions (dims ++ dims') = (s.dimensions dims').dimensions dims := List.foldr_append

theorem dimensions_clean (dims : List Nat) : (s.dimensions dims).Clean ↔ s.Clean := by
  induction dims with
  | nil => exact Iff.rfl
  | cons n dims ih => exact ih

theorem dimensions_plain (dims : List Nat) : (s.dimensions dims).Plain ↔ s.Plain := by
  induction dims with
  | nil => exact Iff.rfl
  | cons n dims ih => exact ih

theorem const_clean (t : TypeText) : t.const.shape.Clean ↔ t = .address := by
  cases t with
  | name s => exact iff_of_false id (fun h => nomatch h)
  | address => exact iff_of_true trivial rfl
  | star t => exact iff_of_false id (fun h => nomatch h)
  | amp t => exact iff_of_false id (fun h => nomatch h)

theorem const_address (t : TypeText) : t.const = .address ↔ t = .address := by
  cases t with
  | address => exact Iff.rfl
  | name s => exact iff_of_false (fun h => nomatch h) (fun h => nomatch h)
  | star t => exact iff_of_false (fun h => nomatch h) (fun h => nomatch h)
  | amp t => exact iff_of_false (fun h => nomatch h) (fun h => nomatch h)

theorem printed_address : ∀ type : IdlType, (printed style type).type = .address ↔ type.Address
  | .pointer => iff_of_true rfl trivial
  | .const type => (const_address _).trans (printed_address type)
  | .named type => printed_address type
  | .primitive _ => iff_of_false (fun h => nomatch h) id
  | .structure _ => iff_of_false (fun h => nomatch h) id
  | .enumeration => iff_of_false (fun h => nomatch h) id
  | .typedef _ => iff_of_false (fun h => nomatch h) id
  | .array _ _ => iff_of_false (fun h => nomatch h) id
  | .other => iff_of_false (fun h => nomatch h) id
  | .reference type => by
    refine iff_of_false ?_ id
    cases style <;> exact fun h => nomatch h

theorem copied_weaken {type : IdlType} (h : type.Copied style false) : type.Copied style true := by
  cases type with
  | array type n => exact absurd h.1 (fun h => nomatch h)
  | _ => exact h

/-- The printed type is clean for the types that are copied as they are printed. -/
theorem printed_clean : ∀ type : IdlType,
    ((printed style type).type.shape.Clean ↔ type.Copied style false) ∧
      ∀ dims, ((printed style type).field dims).Clean ↔ type.Copied style true
  | .primitive _ => ⟨Iff.rfl, fun dims => dimensions_clean dims⟩
  | .pointer => ⟨Iff.rfl, fun dims => dimensions_clean dims⟩
  | .enumeration => ⟨Iff.rfl, fun dims => dimensions_clean dims⟩
  | .other => ⟨Iff.rfl, fun dims => dimensions_clean dims⟩
  | .structure members => ⟨Iff.rfl, fun dims => dimensions_clean dims⟩
  | .named type => by
    have h := (printed_clean type).1
    exact ⟨h, fun dims => (dimensions_clean dims).trans h⟩
  | .typedef type => by
    have h := (printed_clean type).2 []
    exact ⟨h, fun dims => (dimensions_clean dims).trans h⟩
  | .const type => by
    have h := (const_clean (printed style type).type).trans (printed_address type)
    exact ⟨h, fun dims => (dimensions_clean dims).trans h⟩
  | .reference type => by
    cases style with
    | c => exact ⟨Iff.rfl, fun dims => dimensions_clean dims⟩
    | cpp => exact ⟨Iff.rfl, fun dims => dimensions_clean dims⟩
  | .array type n => by
    have h := (printed_clean type).2
    refine ⟨iff_of_false id fun hcopied => absurd hcopied.1 (fun h => nomatch h), fun dims => ?_⟩
    exact (h (dims ++ [n])).trans ⟨fun hcopied => ⟨rfl, hcopied⟩, fun hcopied => hcopied.2⟩

end Printed

section Peel
variable {style : Style} {s l : Shape}

theorem peel_dimensions (dims : List Nat) (n : Nat) :
    (s.dimensions dims).peel (dims.length + n) = s.peel n := by
  induction dims with
  | nil => rw [List.length_nil, Nat.zero_add]; rfl
  | cons m dims ih =>
    rw [List.length_cons, Nat.add_right_comm]
    exact ih

/-- A clean type that has no array left is a value that can be assigned. -/
theorem Shape.Clean.stored (h : s.Clean) (hflat : s.element = none) : s.Stored := by
  cases s with
  | value => rfl
  | record assignable => exact h
  | array n s => cases hflat
  | const s => exact absurd h id
  | pointer s => exact absurd h id
  | reference s => exact absurd h id

theorem Shape.Clean.plain (h : s.Clean) : s.Plain := by
  induction s with
  | value => trivial
  | record assignable => trivial
  | array n s ih => exact ih h
  | const s => exact absurd h id
  | pointer s => exact absurd h id
  | reference s => exact absurd h id

theorem Shape.Clean.referred (h : s.Clean) : s.referred = s := by
  cases s with
  | reference s => exact absurd h id
  | _ => rfl

theorem Shape.Stored.unqualified (h : s.Stored) : s.unqualified = s := by
  cases s with
  | const s => cases h
  | _ => rfl

theorem address_checkData : ∀ type : IdlType, type.Address → Event.checkData type = 0
  | .pointer, _ => rfl
  | .const type, h => address_checkData type h
  | .named type, h => address_checkData type h
  | .primitive _, h => absurd h id
  | .reference _, h => absurd h id
  | .structure _, h => absurd h id
  | .enumeration, h => absurd h id
  | .typedef _, h => absurd h id
  | .array _ _, h => absurd h id
  | .other, h => absurd h id

/-- Under the arrays of a type that is copied there is a value that can be assigned. -/
theorem peel_printed : ∀ type : IdlType,
    (type.Copied style false → ∃ s, (printed style type).type.shape.peel (Event.checkData type) =
      some s ∧ s.Stored) ∧
    (type.Copied style true → ∀ dims, ∃ s, ((printed style type).field dims).peel
      (dims.length + Event.checkData type) = some s ∧ s.Stored)
  | .primitive _ =>
    ⟨fun _ => ⟨.value, rfl, rfl⟩, fun _ dims => ⟨.value, peel_dimensions dims 0, rfl⟩⟩
  | .pointer => ⟨fun _ => ⟨.value, rfl, rfl⟩, fun _ dims => ⟨.value, peel_dimensions dims 0, rfl⟩⟩
  | .enumeration =>
    ⟨fun _ => ⟨.value, rfl, rfl⟩, fun _ dims => ⟨.value, peel_dimensions dims 0, rfl⟩⟩
  | .other => ⟨fun _ => ⟨.value, rfl, rfl⟩, fun _ dims => ⟨.value, peel_dimensions dims 0, rfl⟩⟩
  | .structure members =>
    ⟨fun h => ⟨_, rfl, h⟩, fun h dims => ⟨_, peel_dimensions dims 0, h⟩⟩
  | .named type => by
    have hprinted := (peel_printed type).1
    refine ⟨hprinted, fun h dims => ?_⟩
    obtain ⟨s, hpeel, hs⟩ := hprinted h
    exact ⟨s, (peel_dimensions dims _).trans hpeel, hs⟩
  | .typedef type => by
    have hprinted := fun h => (peel_printed type).2 h []
    simp only [List.length_nil, Nat.zero_add] at hprinted
    refine ⟨hprinted, fun h dims => ?_⟩
    obtain ⟨s, hpeel, hs⟩ := hprinted h
    exact ⟨s, (peel_dimensions dims _).trans hpeel, hs⟩
  | .const type => by
    have hprinted : type.Address → (printed style (.const type)).type.shape.peel
        (Event.checkData (.const type)) = some .value := by
      intro h
      have haddress : (printed style (.const type)).type = .address :=
        (const_address _).mpr ((printed_address type).mpr h)
      have hnone : Event.checkData (.const type) = 0 := address_checkData type h
      rw [haddress, hnone]
      rfl
    refine ⟨fun h => ⟨.value, hprinted h, rfl⟩, fun h dims => ⟨.value, ?_, rfl⟩⟩
    exact (peel_dimensions dims _).trans (hprinted h)
  | .reference type => ⟨fun h => absurd h id, fun h => absurd h id⟩
  | .array type n => by
    refine ⟨fun h => absurd h.1 (fun h => nomatch h), fun h dims => ?_⟩
    obtain ⟨s, hpeel, hs⟩ := (peel_printed type).2 h.2 (dims ++ [n])
    refine ⟨s, ?_, hs⟩
    rw [List.length_append, List.length_singleton, Nat.add_assoc] at hpeel
    exact hpeel

end Peel

namespace Event
variable {style : Style} {left right : Nat → Shape}

/-- What the right side of an assignment comes to, from the type of the parameter. -/
def follow (style : Style) : IdlType → Shape → Option Shape
  | .named type, s => follow style type s
  | .reference type, s =>
    match style with
    | .c => s.pointee.bind (follow .c type)
    | .cpp => follow .cpp type s
  | .array type _, s => s.element.bind (follow style type)
  | .typedef type, s => follow style type s
  | .const type, s => follow style type s
  | _, s => some s

theorem copy_typed {leftname rightname : Name} {f g : Shape → Option Shape} (hf : f = some)
    (hg : g = some) : (Copies.copy leftname rightname).Typed left right ↔
      ∃ s, (leftname.shape left).bind f = some s ∧ s.Stored ∧
        ((rightname.shape right).bind g).map Shape.unqualified = some s := by
  rw [hf, hg, Option.bind_fun_some, Option.bind_fun_some]
  exact Iff.rfl

/-- When the copies from a parameter go through the compiler. -/
theorem writeData_typed (style : Style) :
    ∀ (type : IdlType) (leftname rightname : Name) (arraylevel : Nat),
    (writeData style type leftname rightname arraylevel).Typed left right ↔
      ∃ s, (leftname.shape left).bind (Shape.peel (checkData type)) = some s ∧ s.Stored ∧
        ((rightname.shape right).bind (follow style type)).map Shape.unqualified = some s
  | .named type, leftname, rightname, arraylevel =>
    writeData_typed style type leftname rightname arraylevel
  | .typedef type, leftname, rightname, arraylevel =>
    writeData_typed style type leftname rightname arraylevel
  | .const type, leftname, rightname, arraylevel =>
    writeData_typed style type leftname rightname arraylevel
  | .reference type, leftname, rightname, arraylevel => by
    cases style with
    | c =>
      have h := writeData_typed .c type leftname (.deref rightname) arraylevel
      have hderef : (Name.deref rightname).shape right =
          (rightname.shape right).bind Shape.pointee := rfl
      rw [hderef, Option.bind_assoc] at h
      exact h
    | cpp => exact writeData_typed .cpp type leftname rightname arraylevel
  | .array type n, leftname, rightname, arraylevel => by
    have h := writeData_typed style type (.element leftname arraylevel)
      (.element rightname arraylevel) (arraylevel + 1)
    have helement : ∀ (name : Name) (declared : Nat → Shape),
        (Name.element name arraylevel).shape declared =
          (name.shape declared).bind Shape.element := fun _ _ => rfl
    have hcount : checkData (.array type n) = checkData type + 1 := Nat.add_comm ..
    rw [helement, helement, Option.bind_assoc, Option.bind_assoc] at h
    rw [hcount]
    exact h
  | .primitive _, _, _, _ => copy_typed rfl rfl
  | .pointer, _, _, _ => copy_typed rfl rfl
  | .structure _, _, _, _ => copy_typed rfl rfl
  | .enumeration, _, _, _ => copy_typed rfl rfl
  | .other, _, _, _ => copy_typed rfl rfl

theorem follow_cpp : ∀ type : IdlType, follow .cpp type = Shape.peel (checkData type)
  | .named type => follow_cpp type
  | .typedef type => follow_cpp type
  | .const type => follow_cpp type
  | .reference type => follow_cpp type
  | .array type n => by
    have hrest := follow_cpp type
    have hcount : checkData (.array type n) = checkData type + 1 := Nat.add_comm ..
    rw [hcount]
    funext s
    exact congrArg s.element.bind hrest
  | .primitive _ => rfl
  | .pointer => rfl
  | .structure _ => rfl
  | .enumeration => rfl
  | .other => rfl

/-- When those to a local variable do. -/
theorem readData_typed (type : IdlType) (name : Name) (arraylevel : Nat) :
    (readData type name arraylevel).Typed left right ↔
      ∃ s, (name.shape left).bind (Shape.peel (checkData type)) = some s ∧ s.Stored ∧
        ((name.shape right).bind (Shape.peel (checkData type))).map Shape.unqualified = some s := by
  have h : (writeData .cpp type name name arraylevel).Typed left right ↔ _ :=
    writeData_typed .cpp type name name arraylevel
  rw [follow_cpp] at h
  rw [readData_eq]
  exact h

end Event

section Counts
variable {style : Style} {s s' : Shape}

def Shape.arrays : Shape → Nat
  | .value => 0
  | .record _ => 0
  | .const s => s.arrays
  | .pointer s => s.arrays
  | .reference s => s.arrays
  | .array _ s => s.arrays + 1

def Shape.stars : Shape → Nat
  | .value => 0
  | .record _ => 0
  | .const s => s.stars
  | .pointer s => s.stars + 1
  | .reference s => s.stars
  | .array _ s => s.stars

/-- The arrays that are printed as a `*`, where dimensions may or may not be printed. -/
def IdlType.starred : Bool → IdlType → Nat
  | true, .array type _ => type.starred true
  | false, .array type _ => type.starred false + 1
  | _, .named type => type.starred false
  | _, .typedef type => type.starred true
  | _, .const type => type.starred false
  | _, .reference type => type.starred false
  | _, _ => 0

/-- The references that are printed as a `*`. -/
def IdlType.derefs (style : Style) : IdlType → Nat
  | .array type _ => type.derefs style
  | .named type => type.derefs style
  | .typedef type => type.derefs style
  | .const type => type.derefs style
  | .reference type =>
    match style with
    | .c => type.derefs style + 1
    | .cpp => type.derefs style
  | _ => 0

theorem dimensions_arrays (dims : List Nat) :
    (s.dimensions dims).arrays = s.arrays + dims.length := by
  induction dims with
  | nil => rfl
  | cons n dims ih => exact congrArg (· + 1) ih

theorem dimensions_stars (dims : List Nat) : (s.dimensions dims).stars = s.stars := by
  induction dims with
  | nil => rfl
  | cons n dims ih => exact ih

theorem const_counts (t : TypeText) :
    t.const.shape.arrays = t.shape.arrays ∧ t.const.shape.stars = t.shape.stars := by
  induction t with
  | name s => exact ⟨rfl, rfl⟩
  | address => exact ⟨rfl, rfl⟩
  | star t ih => exact ⟨ih.1, congrArg (· + 1) ih.2⟩
  | amp t ih => exact ih

/-- Every array is printed either as a dimension or as a `*`, and every reference in C as a `*`. -/
structure Counted (style : Style) (type : IdlType) (dimensions : Bool) (dims : Nat) (s : Shape) :
    Prop where
  arrays : s.arrays + type.starred dimensions = dims + Event.checkData type
  stars : s.stars = type.derefs style + type.starred dimensions

theorem Counted.dimensions {type : IdlType} (h : Counted style type true 0 s) (dims : List Nat) :
    Counted style type true dims.length (s.dimensions dims) where
  arrays := by
    have harrays := h.arrays
    rw [dimensions_arrays]
    omega
  stars := (dimensions_stars dims).trans h.stars

theorem printed_counted (style : Style) : ∀ type : IdlType,
    Counted style type false 0 (printed style type).type.shape ∧
      ∀ dims, Counted style type true dims.length ((printed style type).field dims)
  | .primitive _ => ⟨⟨rfl, rfl⟩, Counted.dimensions ⟨rfl, rfl⟩⟩
  | .pointer => ⟨⟨rfl, rfl⟩, Counted.dimensions ⟨rfl, rfl⟩⟩
  | .enumeration => ⟨⟨rfl, rfl⟩, Counted.dimensions ⟨rfl, rfl⟩⟩
  | .other => ⟨⟨rfl, rfl⟩, Counted.dimensions ⟨rfl, rfl⟩⟩
  | .structure _ => ⟨⟨rfl, rfl⟩, Counted.dimensions ⟨rfl, rfl⟩⟩
  | .named type => by
    have h := (printed_counted style type).1
    exact ⟨⟨h.arrays, h.stars⟩, Counted.dimensions ⟨h.arrays, h.stars⟩⟩
  | .typedef type => by
    have h := (printed_counted style type).2 []
    exact ⟨⟨h.arrays, h.stars⟩, Counted.dimensions ⟨h.arrays, h.stars⟩⟩
  | .const type => by
    have h := (printed_counted style type).1
    obtain ⟨harrays, hstars⟩ := const_counts (printed style type).type
    have hcounted : Counted style (.const type) false 0
        (printed style (.const type)).type.shape :=
      ⟨harrays ▸ h.arrays, hstars.trans h.stars⟩
    exact ⟨hcounted, Counted.dimensions ⟨hcounted.arrays, hcounted.stars⟩⟩
  | .reference type => by
    have h := (printed_counted style type).1
    cases style with
    | c =>
      have hstars : ((printed .c type).type.shape.stars + 1) =
          type.derefs .c + 1 + type.starred false := by
        rw [h.stars]
        omega
      exact ⟨⟨h.arrays, hstars⟩, Counted.dimensions ⟨h.arrays, hstars⟩⟩
    | cpp => exact ⟨⟨h.arrays, h.stars⟩, Counted.dimensions ⟨h.arrays, h.stars⟩⟩
  | .array type n => by
    obtain ⟨h, hfield⟩ := printed_counted style type
    refine ⟨⟨?_, ?_⟩, fun dims => ⟨?_, (hfield (dims ++ [n])).stars⟩⟩
    · have harrays := h.arrays
      simp only [printed, TypeText.shape, Shape.arrays, IdlType.starred, Event.checkData]
      omega
    · have hstars := h.stars
      simp only [printed, TypeText.shape, Shape.stars, IdlType.starred, IdlType.derefs]
      omega
    · have harrays := (hfield (dims ++ [n])).arrays
      rw [List.length_append, List.length_singleton] at harrays
      simp only [printed, IdlType.starred, Event.checkData]
      omega

theorem parameter_counted : ∀ (type : IdlType) (dims : List Nat),
    Counted style type true dims.length (declareParameter style type dims)
  | .array type n, dims => by
    have h := parameter_counted type (dims ++ [n])
    have harrays := h.arrays
    rw [List.length_append, List.length_singleton] at harrays
    refine ⟨?_, h.stars⟩
    simp only [declareParameter, IdlType.starred, Event.checkData]
    omega
  | .primitive _, dims => (printed_counted style _).2 dims
  | .pointer, dims => (printed_counted style _).2 dims
  | .enumeration, dims => (printed_counted style _).2 dims
  | .other, dims => (printed_counted style _).2 dims
  | .structure _, dims => (printed_counted style (.structure _)).2 dims
  | .named type, dims => (printed_counted style (.named type)).2 dims
  | .typedef type, dims => (printed_counted style (.typedef type)).2 dims
  | .const type, dims => (printed_counted style (.const type)).2 dims
  | .reference type, dims => by
    have h := (printed_counted style (.reference type)).2 dims
    cases style <;> exact h

theorem variable_arrays : ∀ (type : IdlType) (dims : List Nat),
    (declareLocalVariable style type dims).arrays + type.starred true =
      dims.length + Event.checkData type
  | .array type n, dims => by
    have h := variable_arrays type (dims ++ [n])
    rw [List.length_append, List.length_singleton] at h
    simp only [declareLocalVariable, IdlType.starred, Event.checkData]
    omega
  | .primitive _, dims => ((printed_counted style (.primitive _)).2 dims).arrays
  | .pointer, dims => ((printed_counted style .pointer).2 dims).arrays
  | .enumeration, dims => ((printed_counted style .enumeration).2 dims).arrays
  | .other, dims => ((printed_counted style .other).2 dims).arrays
  | .structure _, dims => ((printed_counted style (.structure _)).2 dims).arrays
  | .named type, dims => ((printed_counted style (.named type)).2 dims).arrays
  | .typedef type, dims => ((printed_counted style (.typedef type)).2 dims).arrays
  | .const type, dims => ((printed_counted style (.const type)).2 dims).arrays
  | .reference type, dims => by
    have h := (printed_counted style type).1.arrays
    have hdims := dimensions_arrays dims (s := (printed style type).type.shape)
    simp only [declareLocalVariable, printType, IdlType.starred, Event.checkData]
    omega

theorem peel_arrays {n : Nat} (h : s.peel n = some s') : s.arrays = n + s'.arrays := by
  induction n generalizing s with
  | zero =>
    cases h
    rw [Nat.zero_add]
  | succ n ih =>
    cases s with
    | array m s =>
      have hrest := ih (s := s) h
      simp only [Shape.arrays]
      omega
    | _ => cases h

theorem peel_clean {n : Nat} (h : s.peel n = some s') (hclean : s'.Clean) : s.Clean := by
  induction n generalizing s with
  | zero =>
    cases h
    exact hclean
  | succ n ih =>
    cases s with
    | array m s => exact ih (s := s) h
    | _ => cases h

theorem element_stars {t : Shape} (h : s.element = some t) : s.stars = t.stars := by
  cases s with
  | array n s =>
    cases h
    rfl
  | _ => cases h

theorem follow_stars (style : Style) : ∀ (type : IdlType) (s : Shape),
    Event.follow style type s = some s' → s.stars = type.derefs style + s'.stars
  | .named type, s, h => follow_stars style type s h
  | .typedef type, s, h => follow_stars style type s h
  | .const type, s, h => follow_stars style type s h
  | .reference type, s, h => by
    cases style with
    | c =>
      cases s with
      | pointer s =>
        have hrest := follow_stars .c type s h
        simp only [Shape.stars, IdlType.derefs]
        omega
      | _ => cases h
    | cpp => exact follow_stars .cpp type s h
  | .array type n, s, h => by
    obtain ⟨t, helement, hrest⟩ := Option.bind_eq_some_iff.mp h
    exact (element_stars helement).trans (follow_stars style type t hrest)
  | .primitive _, s, h => by
    cases h
    exact (Nat.zero_add _).symm
  | .pointer, s, h => by
    cases h
    exact (Nat.zero_add _).symm
  | .structure _, s, h => by
    cases h
    exact (Nat.zero_add _).symm
  | .enumeration, s, h => by
    cases h
    exact (Nat.zero_add _).symm
  | .other, s, h => by
    cases h
    exact (Nat.zero_add _).symm

/-- A value without a `*` that can be assigned. -/
theorem Shape.Stored.clean (h : s.Stored) (hstars : s.stars = 0) : s.Clean := by
  cases s with
  | value => trivial
  | record assignable => exact h
  | pointer s => cases hstars
  | const s => cases h
  | reference s => cases h
  | array n s => exact absurd h id

theorem unqualified_stars : s.unqualified.stars = s.stars := by
  cases s <;> rfl

theorem referred_stars : s.referred.stars = s.stars := by
  cases s <;> rfl

theorem referred_arrays : s.referred.arrays = s.arrays := by
  cases s <;> rfl

end Counts

namespace Event
variable {style : Style} {type : IdlType}

/-- What goes through the compiler is declared as arrays over a value. -/
theorem compiles_clean (h : Compiles style type) : (declareLocalVariable style type []).Clean := by
  obtain ⟨s, hpeel, hs, hright⟩ := (writeData_typed style type _ _ 0).mp h.write
  obtain ⟨s', hfollow, hs'⟩ := Option.map_eq_some_iff.mp hright
  have hplain : (declareLocalVariable style type []).referred =
      declareLocalVariable style type [] := by
    have hvariable := h.variable_
    revert hvariable
    cases declareLocalVariable style type [] with
    | reference t => exact fun hvariable => absurd hvariable id
    | _ => exact fun _ => rfl
  have hpeel' : (declareLocalVariable style type []).peel (checkData type) = some s := by
    rw [← hplain]
    exact hpeel
  have harrays := peel_arrays hpeel'
  have hcount : (declareLocalVariable style type []).arrays + type.starred true =
      [].length + checkData type := variable_arrays type []
  have hparameter : (declareParameter style type []).stars =
      type.derefs style + type.starred true := (parameter_counted type []).stars
  have hstars : (declareParameter style type []).stars = type.derefs style + s'.stars :=
    referred_stars.symm.trans (follow_stars style type _ hfollow)
  refine peel_clean hpeel' (hs.clean ?_)
  rw [← hs', unqualified_stars]
  rw [List.length_nil] at hcount
  omega

/-- Under dimensions there is no reference: it would be passed as something else. -/
theorem copied_under_dimensions : ∀ (type : IdlType) (dims : List Nat), dims ≠ [] →
    (declareLocalVariable style type dims).Clean →
    (declareParameter style type dims).referred = declareLocalVariable style type dims →
    (declareParameter style type dims).referred.Plain → type.Copied style true
  | .array type n, dims, _, hclean, hpassed, hplain => by
    have hmore : dims ++ [n] ≠ [] := by simp
    exact ⟨rfl, copied_under_dimensions type (dims ++ [n]) hmore hclean hpassed hplain⟩
  | .reference type, dims, hdims, _, hpassed, hplain => by
    cases style with
    | c =>
      have hstars := congrArg Shape.stars hpassed
      rw [referred_stars] at hstars
      have hparameter : (declareParameter .c (.reference type) dims).stars =
          (printType .c type).shape.stars + 1 := dimensions_stars dims
      have hvariable : (declareLocalVariable .c (.reference type) dims).stars =
          (printType .c type).shape.stars := dimensions_stars dims
      omega
    | cpp =>
      have hparameter : declareParameter .cpp (.reference type) dims =
          (Shape.reference (printType .cpp type).shape).dimensions dims := rfl
      rw [hparameter] at hplain
      cases dims with
      | nil => exact absurd rfl hdims
      | cons n dims => exact absurd ((dimensions_plain dims).mp hplain) id
  | .primitive _, _, _, _, _, _ => trivial
  | .pointer, _, _, _, _, _ => trivial
  | .enumeration, _, _, _, _, _ => trivial
  | .other, _, _, _, _, _ => trivial
  | .structure members, dims, _, hclean, _, _ =>
    ((printed_clean (.structure members)).2 dims).mp hclean
  | .named type, dims, _, hclean, _, _ => ((printed_clean (.named type)).2 dims).mp hclean
  | .typedef type, dims, _, hclean, _, _ => ((printed_clean (.typedef type)).2 dims).mp hclean
  | .const type, dims, _, hclean, _, _ => ((printed_clean (.const type)).2 dims).mp hclean

theorem compiles_kept : ∀ type : IdlType, Compiles style type → type.Kept style
  | .array type n, h => by
    have hpassed := h.passed
    refine copied_under_dimensions type [n] (List.cons_ne_nil _ _) (compiles_clean h) ?_ h.parameter
    cases style <;> exact hpassed
  | .reference type, h => (printed_clean type).1.mp (compiles_clean h)
  | .named type, h => (printed_clean (.named type)).1.mp (compiles_clean h)
  | .typedef type, h => (printed_clean (.typedef type)).1.mp (compiles_clean h)
  | .const type, h => (printed_clean (.const type)).1.mp (compiles_clean h)
  | .structure members, h => (printed_clean (.structure members)).1.mp (compiles_clean h)
  | .primitive _, _ => trivial
  | .pointer, _ => trivial
  | .enumeration, _ => trivial
  | .other, _ => trivial

theorem copied_declared : ∀ (type : IdlType) (dims : List Nat), type.Copied style true →
    declareParameter style type dims = (printed style type).field dims ∧
      declareLocalVariable style type dims = (printed style type).field dims
  | .array type n, dims, h => copied_declared type (dims ++ [n]) h.2
  | .reference _, _, h => absurd h id
  | .primitive _, _, _ => ⟨rfl, rfl⟩
  | .pointer, _, _ => ⟨rfl, rfl⟩
  | .enumeration, _, _ => ⟨rfl, rfl⟩
  | .other, _, _ => ⟨rfl, rfl⟩
  | .structure _, _, _ => ⟨rfl, rfl⟩
  | .named _, _, _ => ⟨rfl, rfl⟩
  | .typedef _, _, _ => ⟨rfl, rfl⟩
  | .const _, _, _ => ⟨rfl, rfl⟩

theorem address_follow : ∀ type : IdlType, type.Address → follow style type = some
  | .pointer, _ => rfl
  | .const type, h => address_follow type h
  | .named type, h => address_follow type h
  | .primitive _, h => absurd h id
  | .reference _, h => absurd h id
  | .structure _, h => absurd h id
  | .enumeration, h => absurd h id
  | .typedef _, h => absurd h id
  | .array _ _, h => absurd h id
  | .other, h => absurd h id

/-- Without a reference both sides of an assignment go down the same arrays. -/
theorem copied_follow : ∀ type : IdlType, type.Copied style true →
    follow style type = Shape.peel (checkData type)
  | .array type n, h => by
    have hrest := copied_follow type h.2
    have hcount : checkData (.array type n) = checkData type + 1 := Nat.add_comm ..
    rw [hcount]
    funext s
    exact congrArg s.element.bind hrest
  | .named type, h => copied_follow type (copied_weaken h)
  | .typedef type, h => copied_follow type h
  | .const type, h => by
    have hcount : checkData (.const type) = 0 := address_checkData type h
    rw [hcount]
    exact address_follow type h
  | .reference _, h => absurd h id
  | .primitive _, _ => rfl
  | .pointer, _ => rfl
  | .enumeration, _ => rfl
  | .other, _ => rfl
  | .structure _, _ => rfl

theorem compiles_of_clean {s : Shape} (hclean : (declareLocalVariable style type []).Clean)
    (hpeel : (declareLocalVariable style type []).peel (checkData type) = some s) (hs : s.Stored)
    (hfollow : follow style type (declareParameter style type []).referred = some s)
    (hplain : (declareParameter style type []).referred.Plain)
    (hpassed : (declareParameter style type []).referred =
      passLocalVariableAsParameter style type (declareLocalVariable style type [])) :
    Compiles style type where
  parameter := hplain
  variable_ := hclean.plain
  read := by
    refine (readData_typed type _ 0).mpr ⟨s, ?_, hs, ?_⟩
    · exact (congrArg (Shape.peel _) hclean.referred).trans hpeel
    · refine (congrArg (Option.map Shape.unqualified)
        ((congrArg (Shape.peel _) hclean.referred).trans hpeel)).trans ?_
      exact congrArg some hs.unqualified
  write := by
    refine (writeData_typed style type _ _ 0).mpr ⟨s, ?_, hs, ?_⟩
    · exact (congrArg (Shape.peel _) hclean.referred).trans hpeel
    · exact (congrArg (Option.map Shape.unqualified) hfollow).trans (congrArg some hs.unqualified)
  passed := hpassed

/-- A type that is copied as it is declared. -/
theorem copied_compiles (h : type.Copied style true)
    (hprinted : declareParameter style type [] = (printed style type).field [] ∧
      declareLocalVariable style type [] = (printed style type).field [])
    (hpassed : ∀ s, passLocalVariableAsParameter style type s = s) : Compiles style type := by
  have hclean := ((printed_clean type).2 []).mpr h
  obtain ⟨s, hpeel, hs⟩ := (peel_printed type).2 h []
  rw [List.length_nil, Nat.zero_add] at hpeel
  obtain ⟨hparameter, hvariable⟩ := hprinted
  refine compiles_of_clean (hvariable ▸ hclean) (hvariable ▸ hpeel) hs ?_ ?_ ?_
  · rw [hparameter, hclean.referred, copied_follow type h]
    exact hpeel
  · rw [hparameter, hclean.referred]
    exact hclean.plain
  · rw [hpassed, hparameter, hvariable, hclean.referred]

theorem kept_compiles : ∀ type : IdlType, type.Kept style → Compiles style type
  | .array type n, h => by
    have hcopied : (IdlType.array type n).Copied style true := ⟨rfl, h⟩
    refine copied_compiles hcopied (copied_declared _ [] hcopied) ?_
    cases style <;> exact fun _ => rfl
  | .reference type, h => by
    have hclean := (printed_clean type).1.mpr h
    obtain ⟨s, hpeel, hs⟩ := (peel_printed type).1 h
    have hfollow := congrFun (copied_follow type (copied_weaken h))
      (printed style type).type.shape
    rw [hpeel] at hfollow
    refine compiles_of_clean hclean hpeel hs ?_ ?_ ?_
    · cases style <;> exact hfollow
    · cases style <;> exact hclean.plain
    · cases style <;> rfl
  | .named type, h => by
    refine copied_compiles h (copied_declared _ [] h) ?_
    cases style <;> exact fun _ => rfl
  | .typedef type, h => by
    refine copied_compiles h (copied_declared _ [] h) ?_
    cases style <;> exact fun _ => rfl
  | .const type, h => by
    refine copied_compiles h (copied_declared _ [] h) ?_
    cases style <;> exact fun _ => rfl
  | .structure members, h => by
    refine copied_compiles h (copied_declared _ [] h) ?_
    cases style <;> exact fun _ => rfl
  | .primitive _, _ => by
    refine copied_compiles trivial (copied_declared _ [] trivial) ?_
    cases style <;> exact fun _ => rfl
  | .pointer, _ => by
    refine copied_compiles trivial (copied_declared _ [] trivial) ?_
    cases style <;> exact fun _ => rfl
  | .enumeration, _ => by
    refine copied_compiles trivial (copied_declared _ [] trivial) ?_
    cases style <;> exact fun _ => rfl
  | .other, _ => by
    refine copied_compiles trivial (copied_declared _ [] trivial) ?_
    cases style <;> exact fun _ => rfl

/-- The parameters that go through the compiler. -/
theorem compiles_iff (type : IdlType) : Compiles style type ↔ type.Kept style :=
  ⟨compiles_kept type, kept_compiles type⟩

end Event

end Codinalte.Idl
