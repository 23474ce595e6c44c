import Codinalte.Conf.Descents
import Codinalte.Lib.Checks
import Mathlib.Order.Basic
import Mathlib.Order.Defs.LinearOrder

/-! The recursions over the definitions end: a definition is entered only if it is not yet among
those that were found, or among those that are open. -/

namespace Codinalte.Conf
open Codinalte.Recursion

/-- The outcome is not that of a call that is too deep. -/
abbrev Ends {α : Type} (x : Except Failure α) : Prop :=
  Outcome (fun _ => True) (· ≠ .unfinished) x

theorem Ends.ne {α : Type} {x : Except Failure α} (h : Ends x) : x ≠ .error .unfinished :=
  fun heq => h.error heq rfl

theorem ends_of_ne {α : Type} {x : Except Failure α} (h : x ≠ .error .unfinished) : Ends x := by
  cases x with
  | error failure => exact fun heq => h (congrArg _ heq)
  | ok a => trivial

theorem Ends.seq {α β : Type} {x : Except Failure α} {f : α → Except Failure β} (hx : Ends x)
    (hf : ∀ a, Ends (f a)) : Ends (x >>= f) :=
  hx.bind fun a _ _ => hf a

theorem throwIf_ends (condition : Bool) (error : Error) : Ends (throwIf condition error) := by
  cases condition
  · trivial
  · exact fun h => nomatch h

theorem raise_ends {α : Type} (x : Except Error α) : Ends (raise x) := by
  cases x with
  | error e => exact fun h => nomatch h
  | ok a => trivial

theorem Compile_ends (components : Components) (compname : String) :
    Ends (Compile components compname) := by
  match h : Compile components compname with
  | .ok type => trivial
  | .error failure =>
    rw [Compile_error h]
    exact fun h => nomatch h

theorem StringToDecimal_ends (value : String) : Ends (StringToDecimal value) := by
  have hunsigned : ∀ sign digits, Ends (StringToDecimal.unsigned value sign digits) := by
    intro sign digits
    unfold StringToDecimal.unsigned
    split
    · trivial
    · exact fun h => by cases h
  unfold StringToDecimal
  dsimp only
  split
  all_goals
    split
    · exact fun h => by cases h
    · exact fun h => by cases h
    · exact hunsigned _ _
    · exact hunsigned _ _

theorem parseInt_ends (ctype value : String) : Ends (parseInt ctype value) := by
  unfold parseInt
  split
  · split
    · trivial
    · exact fun h => nomatch h
  · exact fun h => nomatch h

theorem checkUnsigned_ends {integersize : Except Failure Int} (h : Ends integersize)
    (ctype value : String) : Ends (checkUnsigned integersize ctype value) :=
  (throwIf_ends _ _).seq fun _ => h.seq fun _ => (StringToDecimal_ends value).seq fun _ =>
    throwIf_ends _ _

theorem checkSigned_ends (ctype value : String) : Ends (checkSigned ctype value) := by
  unfold checkSigned
  refine (parseInt_ends ctype value).seq fun integersize => ?_
  refine (StringToDecimal_ends value).seq fun intvalue => ?_
  generalize shiftOne (integersize - 1) = bound
  refine Ends.seq (throwIf_ends _ _) fun _ => ?_
  exact throwIf_ends _ _

theorem checkValue_ends (sizeOfWord : Int) (ctype : Option String) (value : String) :
    Ends (checkValue sizeOfWord ctype value) := by
  cases ctype with
  | none => exact fun h => nomatch h
  | some ctype =>
    refine (throwIf_ends _ _).seq fun _ => (throwIf_ends _ _).seq fun _ =>
      (throwIf_ends _ _).seq fun _ => (throwIf_ends _ _).seq fun _ => ?_
    split
    · have hsize : Ends (.ok sizeOfWord : Except Failure Int) := trivial
      exact checkUnsigned_ends hsize ctype value
    · split
      · exact checkUnsigned_ends (parseInt_ends ctype value) ctype value
      · split
        · exact checkSigned_ends ctype value
        · trivial

/-- The definitions whose name is not in a list. -/
def left (components : Components) (names : List String) : Nat :=
  (components.filter fun type => type.fullyname ∉ names).length

theorem left_le (components : Components) (names : List String) :
    left components names ≤ components.length := List.length_filter_le _ _

theorem left_lt {components : Components} {type : Asttype} {names : List String}
    (hmem : type ∈ components) (h : type.fullyname ∉ names) :
    left components (names ++ [type.fullyname]) < left components names := by
  unfold left
  rw [← List.countP_eq_length_filter, ← List.countP_eq_length_filter]
  induction components with
  | nil => cases hmem
  | cons head components ih =>
    have hle : ∀ l : Components, l.countP (fun t => t.fullyname ∉ names ++ [type.fullyname]) ≤
        l.countP fun t => t.fullyname ∉ names := fun l =>
      List.countP_mono_left fun t _ ht => by
        simp only [List.mem_append, not_or, decide_eq_true_eq] at ht ⊢
        exact ht.1
    rw [List.countP_cons, List.countP_cons]
    rcases List.mem_cons.mp hmem with rfl | hmem
    · have := hle components
      rw [if_neg (by simp), if_pos (by simpa using h)]
      omega
    · have hlt := ih hmem
      have hhead := hle [head]
      simp only [List.countP_singleton] at hhead
      omega

theorem extend_measured (components : Components) :
    Measured (extendDescent components) .unfinished (fun _ _ => True)
      (fun _ extended => left components extended) where
  follow_ne _ _ _ _ := by
    refine Ends.ne ?_
    exact (Compile_ends components _).seq fun _ => trivial
  leave_ne _ _ _ _ _ := fun h => nomatch h
  stay f s e s' _ h := by
    obtain ⟨extendType, hcompile, h⟩ := Checks.bind_ok.mp h
    have h' := Except.ok.inj h
    split at h'
    · cases h'
      exact ⟨trivial, Nat.le_refl _⟩
    · cases h'
  down f s e c below _ h := by
    obtain ⟨extendType, hcompile, h⟩ := Checks.bind_ok.mp h
    have h' := Except.ok.inj h
    split at h'
    · cases h'
    · next hnot =>
      cases h'
      exact ⟨trivial, left_lt (Compile_ok hcompile).1 hnot⟩
  back f s e c below s' s'' _ h _ hle hleave := by
    obtain ⟨extendType, hcompile, h⟩ := Checks.bind_ok.mp h
    have h' := Except.ok.inj h
    split at h'
    · cases h'
    · next hnot =>
      cases h'
      cases hleave
      exact ⟨trivial, Nat.le_trans hle (left_lt (Compile_ok hcompile).1 hnot).le⟩
  close _ _ _ := ⟨trivial, Nat.le_refl _⟩

theorem computeExtend_ends {components : Components} {calls : Nat}
    (h : components.length < calls) (type : Asttype) (extended : List String) :
    Ends (computeExtend components calls type extended) := by
  rw [computeExtend_eq]
  exact ends_of_ne ((extend_measured components).ne_unfinished trivial
    (Nat.lt_of_le_of_lt (left_le components extended) h))

theorem computeExtend_settled {components : Components} {calls : Nat}
    (h : components.length < calls) (type : Asttype) :
    computeExtend components calls type [] =
      computeExtend components (components.length + 1) type [] := by
  rw [computeExtend_eq, computeExtend_eq]
  refine run_settled _ ?_ h
  exact (extend_measured components).ne_unfinished trivial
    (Nat.lt_succ_of_le (left_le components []))

section Checked
variable {components : Components} {calls : Nat}

theorem checkTemplates_ends (h : components.length < calls) (declarations : List Parameter)
    (definitions : List String) (i : Nat) :
    Ends (checkTemplates components calls declarations definitions i) := by
  induction declarations generalizing definitions i with
  | nil => trivial
  | cons declaration declarations ih =>
    cases definitions with
    | nil => trivial
    | cons definition definitions =>
      refine Ends.seq ?_ fun _ => ih definitions (i + 1)
      exact (Compile_ends components _).seq fun _ => (computeExtend_ends h _ _).seq fun _ =>
        throwIf_ends _ _

theorem checkTemplates_settled (h : components.length < calls) (declarations : List Parameter)
    (definitions : List String) (i : Nat) :
    checkTemplates components calls declarations definitions i =
      checkTemplates components (components.length + 1) declarations definitions i := by
  induction declarations generalizing definitions i with
  | nil => rfl
  | cons declaration declarations ih =>
    cases definitions with
    | nil => rfl
    | cons definition definitions =>
      simp only [checkTemplates, checkTemplate, computeExtend_settled h, ih definitions (i + 1)]

theorem checkValues_ends (sizeOfWord : Int) (declarations : List Parameter)
    (definitions : List String) : Ends (checkValues sizeOfWord declarations definitions) := by
  induction declarations generalizing definitions with
  | nil => trivial
  | cons declaration declarations ih =>
    cases definitions with
    | nil => trivial
    | cons definition definitions =>
      exact (checkValue_ends _ _ _).seq fun _ => ih definitions

theorem checkDefinition_ends (target : Target) (h : components.length < calls)
    (implementsType : Asttype) (templates attributes : Option (List String)) :
    Ends (checkDefinition components target calls implementsType templates attributes) := by
  unfold checkDefinition
  have hattributes : Ends (do
      checkAttributeNumber implementsType attributes
      checkValues target.sizeOfWord implementsType.attributeparameters (attributes.getD [])) :=
    (throwIf_ends _ _).seq fun _ => checkValues_ends _ _ _
  split
  · refine Ends.seq ?_ fun _ => (checkTemplates_ends h _ _ _).seq fun _ => hattributes
    cases templates with
    | none =>
      unfold checkTemplateNumber
      split_ifs
      · exact fun heq => Failure.noConfusion heq
      · trivial
    | some templates => exact throwIf_ends _ _
  · exact (throwIf_ends _ _).seq fun _ => hattributes
  · exact (throwIf_ends _ _).seq fun _ => throwIf_ends _ _

theorem checkDefinition_settled (target : Target) (h : components.length < calls) :
    checkDefinition components target calls =
      checkDefinition components target (components.length + 1) := by
  funext implementsType templates attributes
  unfold checkDefinition
  simp only [checkTemplates_settled h]

end Checked

theorem Build.addProperty_cumul (b : Build) (property : Property) :
    (b.addProperty property).cumul = b.cumul := by
  unfold Build.addProperty
  split <;> rfl

theorem Build.foldl_addProperty_cumul (b : Build) (properties : List Property) :
    (properties.foldl Build.addProperty b).cumul = b.cumul := by
  induction properties generalizing b with
  | nil => rfl
  | cons property properties ih => exact (ih _).trans (b.addProperty_cumul property)

@[simp] theorem Build.addLocals_cumul (b : Build) (type : Asttype) :
    (b.addLocals type).cumul = b.cumul :=
  Build.foldl_addProperty_cumul _ _

theorem Build.foldl_addAttribute_cumul (parameters : Parameters) (b : Build)
    (attributes : List Attribute) :
    (attributes.foldl (Build.addAttribute parameters) b).cumul = b.cumul := by
  induction attributes generalizing b with
  | nil => rfl
  | cons declared attributes ih => exact ih _

theorem Build.addOwn_ok {componentClass : ComponentClass} {m : Merge} {b b' : Build}
    (h : b.addOwn componentClass m = .ok b') : b'.cumul = b.cumul := by
  unfold Build.addOwn at h
  split at h
  · cases h
    rfl
  · split at h
    · cases h
    · cases h
      exact Build.foldl_addAttribute_cumul _ _ _
  · cases h
    rfl

theorem Build.addOwn_ends (componentClass : ComponentClass) (m : Merge) (b : Build) :
    Ends (b.addOwn componentClass m) := by
  unfold Build.addOwn
  split
  · trivial
  · split
    · exact fun heq => Failure.noConfusion heq
    · trivial
  · trivial

theorem checkKind_ends (componentClass : ComponentClass) (kind : Kind) :
    Ends (checkKind componentClass kind) := by
  unfold checkKind
  split
  all_goals first | exact trivial | exact fun h => nomatch h

section Copied
variable {target : Target} {components : Components} {componentClass : ComponentClass}
  {depth : Nat}

theorem followExtend_ends (h : components.length < depth) (m : Merge) (b : Build)
    (extend : Definition) :
    Ends (followExtend target components componentClass depth m b extend) := by
  unfold followExtend
  refine (throwIf_ends _ _).seq fun _ => (Compile_ends _ _).seq fun implementsType => ?_
  refine (checkDefinition_ends target h _ _ _).seq fun _ => (throwIf_ends _ _).seq fun _ => ?_
  split
  · trivial
  · exact (checkKind_ends _ _).seq fun _ => trivial

/-- What is known when a clause was followed. -/
structure Followed (target : Target) (components : Components) (componentClass : ComponentClass)
    (depth : Nat) (m : Merge) (extend : Definition) (implementsType : Asttype) : Prop where
  once : (m.type.extended.filter (·.type = extend.type)).length = 1
  compile : Compile components extend.type = .ok implementsType
  checked : checkDefinition components target depth implementsType (some extend.templates)
    (some extend.attributes) = .ok ()
  fresh : implementsType.fullyname ∉ m.stack

theorem followExtend_ok {m : Merge} {b : Build} {extend : Definition} {next : Build ⊕ Merge × Build}
    (h : followExtend target components componentClass depth m b extend = .ok next) :
    ∃ implementsType, Followed target components componentClass depth m extend implementsType ∧
      (implementsType.fullyname ∈ b.cumul ∧ next = .inl b ∨
        implementsType.fullyname ∉ b.cumul ∧
          checkKind componentClass implementsType.kind = .ok () ∧
          next = .inr (Merge.enter (m.stack ++ [implementsType.fullyname]) implementsType
            (extend.compute m.templateparameters m.attributeparameters),
            { b with cumul := b.cumul ++ [implementsType.fullyname] })) := by
  unfold followExtend at h
  obtain ⟨_, honce, h⟩ := Checks.bind_ok.mp h
  obtain ⟨implementsType, hcompile, h⟩ := Checks.bind_ok.mp h
  obtain ⟨_, hchecked, h⟩ := Checks.bind_ok.mp h
  obtain ⟨_, hfresh, h⟩ := Checks.bind_ok.mp h
  refine ⟨implementsType, ⟨?_, hcompile, hchecked, ?_⟩, ?_⟩
  · simpa using throwIf_ok.mp honce
  · simpa using throwIf_ok.mp hfresh
  · split at h
    · next hin =>
      cases h
      exact .inl ⟨hin, rfl⟩
    · next hnot =>
      obtain ⟨_, hkind, h⟩ := Checks.bind_ok.mp h
      cases h
      exact .inr ⟨hnot, hkind, rfl⟩

theorem copy_measured (h : components.length < depth) :
    Measured (copyDescent target components componentClass depth) .unfinished (fun _ _ => True)
      (fun _ b => left components b.cumul) where
  follow_ne m b extend _ := (followExtend_ends h m b extend).ne
  leave_ne _ _ m _ b := (b.addOwn_ends componentClass m).ne
  stay m b extend b' _ hok := by
    obtain ⟨implementsType, -, ⟨-, heq⟩ | ⟨-, -, heq⟩⟩ := followExtend_ok hok
    · cases heq
      exact ⟨trivial, Nat.le_refl _⟩
    · cases heq
  down m b extend c below _ hok := by
    obtain ⟨implementsType, hfollowed, ⟨-, heq⟩ | ⟨hnot, -, heq⟩⟩ := followExtend_ok hok
    · cases heq
    · cases heq
      exact ⟨trivial, left_lt (Compile_ok hfollowed.compile).1 hnot⟩
  back m b extend c below b' b'' _ hok _ hle hleave := by
    obtain ⟨implementsType, hfollowed, ⟨-, heq⟩ | ⟨hnot, -, heq⟩⟩ := followExtend_ok hok
    · cases heq
    · cases heq
      have hown : b''.cumul = b'.cumul := Build.addOwn_ok hleave
      refine ⟨trivial, ?_⟩
      dsimp only at hle ⊢
      rw [hown]
      exact Nat.le_trans hle (left_lt (Compile_ok hfollowed.compile).1 hnot).le
  close m b _ := ⟨trivial, Nat.le_of_eq (congrArg (left components) (b.addLocals_cumul m.type))⟩

theorem copyDescent_settled (h : components.length < depth) :
    copyDescent target components componentClass depth =
      copyDescent target components componentClass (components.length + 1) := by
  unfold copyDescent followExtend
  rw [checkDefinition_settled target h]

theorem createCanonical_ends (h : components.length < depth) (type : Asttype)
    (templates attributes : Option (List String)) (cvalues : Nat → String) :
    Ends (createCanonical target components depth componentClass type templates attributes
      cvalues) := by
  rw [createCanonical_eq]
  refine (checkDefinition_ends target h _ _ _).seq fun _ => Ends.seq ?_ fun _ => trivial
  exact ends_of_ne ((copy_measured h).ne_unfinished trivial
    (Nat.lt_of_le_of_lt (left_le components _) h))

theorem createCanonical_settled (h : components.length < depth) :
    createCanonical target components depth =
      createCanonical target components (components.length + 1) := by
  funext componentClass type templates attributes cvalues
  rw [createCanonical_eq, createCanonical_eq, checkDefinition_settled target h,
    copyDescent_settled h]
  refine bind_congr fun _ => congrArg (· >>= _) ?_
  refine run_settled _ ?_ h
  exact (copy_measured (Nat.lt_succ_self _)).ne_unfinished trivial
    (Nat.lt_succ_of_le (left_le components _))

end Copied

section Instanciated
variable {target : Target} {components : Components} {depth : Nat}

theorem createInstance_ends (content : Option Content) (type : Asttype) (run : Run) :
    Ends (createInstance target content type run) := by
  unfold createInstance
  dsimp only
  split_ifs
  · trivial
  · split
    · exact (raise_ends _).seq fun _ => trivial
    · exact (throwIf_ends _ _).seq fun _ => trivial
  · trivial

theorem followContent_ends (h : components.length < depth) (f : Opened) (s : Inside × Run)
    (content : Content) : Ends (followContent target components depth f s content) := by
  unfold followContent
  refine (throwIf_ends _ _).seq fun _ => (throwIf_ends _ _).seq fun _ =>
    (throwIf_ends _ _).seq fun _ => ?_
  split
  · split
    · refine Ends.seq ?_ fun _ => trivial
      exact (raise_ends _).seq fun _ => (createCanonical_ends h _ _ _ _).seq fun _ => trivial
    · refine (Compile_ends _ _).seq fun sctype => ?_
      split
      · exact (createCanonical_ends h _ _ _ _).seq fun _ => trivial
      · exact (createInstance_ends _ _ _).seq fun _ =>
          (createCanonical_ends h _ _ _ _).seq fun _ => trivial
      · exact fun heq => Failure.noConfusion heq
  · refine Ends.seq ?_ fun _ => trivial
    exact (throwIf_ends _ _).seq fun _ => (throwIf_ends _ _).seq fun _ =>
      (Compile_ends _ _).seq fun _ => (throwIf_ends _ _).seq fun _ =>
        (createCanonical_ends h _ _ _ _).seq fun _ => trivial

/-- A content that opens a composite. -/
structure Opens (target : Target) (components : Components) (depth : Nat) (f : Opened)
    (content : Content) (c : Opened) (cvalues : Nat → String) (b : Build) : Prop where
  fresh : content.typedefinition.type ∉ f.callstack
  mpc : content.mpc = none
  written : generated target content.typedefinition.type = none
  compile : Compile components content.typedefinition.type = .ok c.type
  kind : c.type.kind = .composite
  canonical : createCanonical target components depth .composite c.type
    (some content.typedefinition.templates) (some content.typedefinition.attributes) cvalues = .ok b
  frame : c = ⟨some content, c.type, f.callstack ++ [c.type.fullyname], b.component⟩

theorem followContent_opens {f c : Opened} {s below : Inside × Run} {content : Content}
    (h : followContent target components depth f s content = .ok (.inr (c, below))) :
    ∃ b, Opens target components depth f content c s.2.cvalues b ∧
      below = (⟨[], []⟩, { s.2 with cvalues := b.cvalues }) := by
  unfold followContent at h
  obtain ⟨_, -, h⟩ := Checks.bind_ok.mp h
  obtain ⟨_, hfresh, h⟩ := Checks.bind_ok.mp h
  obtain ⟨_, -, h⟩ := Checks.bind_ok.mp h
  split at h
  · next hmpc =>
    split at h
    · obtain ⟨_, -, h⟩ := Checks.bind_ok.mp h
      cases h
    · next hwritten =>
      obtain ⟨sctype, hcompile, h⟩ := Checks.bind_ok.mp h
      split at h
      · next hkind =>
        obtain ⟨b, hcanonical, h⟩ := Checks.bind_ok.mp h
        cases h
        exact ⟨b, ⟨by simpa using throwIf_ok.mp hfresh, hmpc, hwritten, hcompile, hkind, hcanonical,
          rfl⟩, rfl⟩
      · obtain ⟨_, -, h⟩ := Checks.bind_ok.mp h
        obtain ⟨_, -, h⟩ := Checks.bind_ok.mp h
        cases h
      · cases h
  · obtain ⟨_, -, h⟩ := Checks.bind_ok.mp h
    cases h

theorem open_measured (h : components.length < depth) :
    Measured (openDescent target components depth) .unfinished (fun _ _ => True)
      (fun f _ => left components f.callstack) where
  follow_ne f s content _ := (followContent_ends h f s content).ne
  leave_ne _ _ _ _ _ := fun h => nomatch h
  stay _ _ _ _ _ _ := ⟨trivial, Nat.le_refl _⟩
  down f s content c below _ hok := by
    obtain ⟨b, hopens, -⟩ := followContent_opens hok
    refine ⟨trivial, ?_⟩
    rw [hopens.frame]
    obtain ⟨hmem, hname⟩ := Compile_ok hopens.compile
    exact left_lt hmem (hname ▸ hopens.fresh)
  back _ _ _ _ _ _ _ _ _ _ _ _ := ⟨trivial, Nat.le_refl _⟩
  close _ _ _ := ⟨trivial, Nat.le_refl _⟩

theorem openDescent_settled (h : components.length < depth) :
    openDescent target components depth =
      openDescent target components (components.length + 1) := by
  unfold openDescent followContent instanciateGenerated instanciateProxy
  rw [createCanonical_settled h]

/-- Where a definition that is instantiated on its own starts. -/
def Opened.root (type : Asttype) (b : Build) : Opened := ⟨none, type, [type.fullyname], b.component⟩

theorem instanciate_eq (calls : Nat) (sc : Asttype) (run : Run) :
    instanciate target components calls sc run =
      match sc.kind with
      | .composite => do
        let b ← createCanonical target components calls .composite sc none none run.cvalues
        let (inside, run) ← (openDescent target components calls).run .unfinished calls
          (.root sc b) (⟨[], []⟩, { run with cvalues := b.cvalues })
        return ((Opened.root sc b).component inside, run)
      | .primitive => do
        let (type, isFirstInstance, run) ← createInstance target none sc run
        let b ← createCanonical target components calls .primitive type none none run.cvalues
        return (.mk none type .primitive isFirstInstance maxOrder b.component [] [],
          { run with cvalues := b.cvalues })
      | .type => .error (.compilerexception .instantiateType) := by
  unfold instanciate instanciateComponent
  cases sc.kind with
  | composite =>
    refine bind_congr fun b => ?_
    exact congrArg (· >>= _) (instanciateComposite_eq target components calls calls none sc [] _ _)
  | primitive => rfl
  | type => rfl

theorem instanciate_ends (h : components.length < depth) (sc : Asttype) (run : Run) :
    Ends (instanciate target components depth sc run) := by
  rw [instanciate_eq]
  split
  · refine (createCanonical_ends h _ _ _ _).seq fun b => Ends.seq ?_ fun _ => trivial
    exact ends_of_ne ((open_measured h).ne_unfinished trivial
      (Nat.lt_of_le_of_lt (left_le components _) h))
  · exact (createInstance_ends _ _ _).seq fun _ =>
      (createCanonical_ends h _ _ _ _).seq fun _ => trivial
  · exact fun heq => Failure.noConfusion heq

theorem instanciate_settled (h : components.length < depth) (sc : Asttype) (run : Run) :
    instanciate target components depth sc run =
      instanciate target components (components.length + 1) sc run := by
  rw [instanciate_eq, instanciate_eq, createCanonical_settled h, openDescent_settled h]
  cases sc.kind with
  | composite =>
    refine bind_congr fun b => congrArg (· >>= _) ?_
    refine run_settled _ ?_ h
    exact (open_measured (Nat.lt_succ_self _)).ne_unfinished trivial
      (Nat.lt_succ_of_le (left_le components _))
  | primitive => rfl
  | type => rfl

end Instanciated

end Codinalte.Conf
