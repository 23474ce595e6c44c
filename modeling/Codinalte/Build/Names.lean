import Codinalte.Idl.Types
import Mathlib.Data.List.Induction
import Mathlib.Logic.Function.Basic
import Std.Data.String.ToInt

/-! The names of the temporary files of a context: the last name that is asked for, or that name
behind a number when it belongs to another component. -/

namespace Codinalte.Build
open Codinalte.Idl (javaInt)

structure Context where
  lastnames : String → Option String
  lastnameid : Int

structure File where
  directory : String
  lastname : String
deriving DecidableEq

structure Call where
  component : String
  lastname : String
deriving DecidableEq

def startContext : Context := ⟨fun _ => none, 0⟩

def getComponentTemporaryFile (component filename : String) : File where
  directory := String.ofList (component.toList.map fun c => if c = '.' then '/' else c)
  lastname := filename

/-- The name that is made where a last name belongs to another component. -/
def Context.renamed (context : Context) (lastname : String) : String :=
  toString context.lastnameid ++ "_" ++ lastname

def getComponentUniqueTemporaryFile (context : Context) (call : Call) : Context × File :=
  match context.lastnames call.lastname with
  | some exitingcomponent =>
    if exitingcomponent = call.component then
      (context, getComponentTemporaryFile call.component call.lastname)
    else
      let lastname := context.renamed call.lastname
      (⟨Function.update context.lastnames lastname (some call.component),
        javaInt (context.lastnameid + 1)⟩, getComponentTemporaryFile call.component lastname)
  | none =>
    (⟨Function.update context.lastnames call.lastname (some call.component), context.lastnameid⟩,
      getComponentTemporaryFile call.component call.lastname)

/-- A call with the context it was made in and the file it returned. -/
structure Answer where
  context : Context
  call : Call
  file : File

def answer (run : Context × List Answer) (call : Call) : Context × List Answer :=
  let (context, file) := getComponentUniqueTemporaryFile run.1 call
  (context, run.2 ++ [⟨run.1, call, file⟩])

def run (calls : List Call) : Context × List Answer := calls.foldl answer (startContext, [])

/-- Files of different components have different last names. -/
def Unique (answers : List Answer) : Prop :=
  ∀ a ∈ answers, ∀ b ∈ answers, a.call.component ≠ b.call.component →
    a.file.lastname ≠ b.file.lastname

/-- The same call returns the same file. -/
def Stable (answers : List Answer) : Prop :=
  ∀ a ∈ answers, ∀ b ∈ answers, a.call = b.call → a.file = b.file

/-- Where the last name belongs to another component, the call is not made again under another
number, and the name that is made does not belong to another component either. -/
def Clear (run : Context × List Answer) (call : Call) : Prop :=
  ∀ owner, run.1.lastnames call.lastname = some owner → owner ≠ call.component →
    (∀ a ∈ run.2, a.call = call → a.context.lastnameid = run.1.lastnameid) ∧
    ∀ other, run.1.lastnames (run.1.renamed call.lastname) = some other → other = call.component

/-- How a file was named, with what is known of its names. -/
inductive Named (context : Context) (a : Answer) : Prop where
  | same (h : a.file = getComponentTemporaryFile a.call.component a.call.lastname)
      (howner : context.lastnames a.call.lastname = some a.call.component)
  | renamed (h : a.file = getComponentTemporaryFile a.call.component
      (a.context.renamed a.call.lastname))
      (howner : context.lastnames (a.context.renamed a.call.lastname) = some a.call.component)
      {owner : String} (hother : context.lastnames a.call.lastname = some owner)
      (hne : owner ≠ a.call.component)

/-- What holds as long as no name changes its component. -/
structure Consistent (run : Context × List Answer) : Prop where
  named : ∀ a ∈ run.2, Named run.1 a
  returned : ∀ lastname component, run.1.lastnames lastname = some component →
    ∃ a ∈ run.2, a.file.lastname = lastname ∧ a.call.component = component
  stable : Stable run.2

section Steps
variable {context context' : Context} {run : Context × List Answer} {call : Call}

theorem renamed_inj {a b : Context} {lastname : String}
    (h : a.renamed lastname = b.renamed lastname) :
    a.lastnameid = b.lastnameid := by
  have hprefix := (String.append_left_inj lastname).mp h
  exact Int.repr_injective ((String.append_left_inj "_").mp hprefix)

theorem renamed_ne (context : Context) (lastname : String) :
    context.renamed lastname ≠ lastname := by
  intro h
  have hlength := congrArg String.length h
  simp only [Context.renamed, String.length_append] at hlength
  have hone : "_".length = 1 := rfl
  omega

/-- How a call is answered. -/
inductive Answers (run : Context × List Answer) (call : Call) : Context → String → Prop where
  | own (howner : run.1.lastnames call.lastname = some call.component) :
    Answers run call run.1 call.lastname
  | other {owner : String} (howner : run.1.lastnames call.lastname = some owner)
      (hne : owner ≠ call.component) : Answers run call
        ⟨Function.update run.1.lastnames (run.1.renamed call.lastname) (some call.component),
          javaInt (run.1.lastnameid + 1)⟩ (run.1.renamed call.lastname)
  | new (howner : run.1.lastnames call.lastname = none) : Answers run call
      ⟨Function.update run.1.lastnames call.lastname (some call.component), run.1.lastnameid⟩
        call.lastname

theorem answer_cases (run : Context × List Answer) (call : Call) :
    ∃ context lastname, Answers run call context lastname ∧ answer run call =
      (context, run.2 ++ [⟨run.1, call, getComponentTemporaryFile call.component lastname⟩]) := by
  unfold answer getComponentUniqueTemporaryFile
  cases howner : run.1.lastnames call.lastname with
  | none => exact ⟨_, _, .new howner, rfl⟩
  | some owner =>
    by_cases hsame : owner = call.component
    · simp only [if_pos hsame]
      exact ⟨_, _, .own (hsame ▸ howner), rfl⟩
    · simp only [if_neg hsame]
      exact ⟨_, _, .other howner hsame, rfl⟩

theorem Named.keep {a : Answer} (h : Named context a) (hkeep : ∀ lastname component,
    context.lastnames lastname = some component →
      context'.lastnames lastname = some component) : Named context' a := by
  cases h with
  | same h howner => exact .same h (hkeep _ _ howner)
  | renamed h howner hother hne => exact .renamed h (hkeep _ _ howner) (hkeep _ _ hother) hne

/-- A name is put that belongs to no other component. -/
theorem update_keep {lastnames : String → Option String} {lastname component : String}
    (h : ∀ other, lastnames lastname = some other → other = component) {name owner : String}
    (hname : lastnames name = some owner) :
    Function.update lastnames lastname (some component) name = some owner := by
  by_cases heq : name = lastname
  · subst heq
    rw [Function.update_self, h owner hname]
  · rw [Function.update_of_ne heq, hname]

theorem Stable.snoc {answers : List Answer} {a : Answer} (h : Stable answers)
    (ha : ∀ b ∈ answers, b.call = a.call → b.file = a.file) : Stable (answers ++ [a]) := by
  intro b hb c hc hcall
  rcases List.mem_append.mp hb with hb | hb
  · rcases List.mem_append.mp hc with hc | hc
    · exact h b hb c hc hcall
    · rw [List.mem_singleton.mp hc] at hcall ⊢
      exact ha b hb hcall
  · rw [List.mem_singleton.mp hb] at hcall ⊢
    rcases List.mem_append.mp hc with hc | hc
    · exact (ha c hc hcall.symm).symm
    · rw [List.mem_singleton.mp hc]

/-- The names stay consistent when a name is put that belongs to no other component, and no earlier
call was answered otherwise. -/
theorem Consistent.put (h : Consistent run) {lastname : String} {lastnameid : Int}
    (hfree : ∀ other, run.1.lastnames lastname = some other → other = call.component)
    (hsame : ∀ b ∈ run.2, b.call = call →
      b.file = getComponentTemporaryFile call.component lastname)
    (hnamed : Named ⟨Function.update run.1.lastnames lastname (some call.component), lastnameid⟩
      ⟨run.1, call, getComponentTemporaryFile call.component lastname⟩) :
    Consistent (⟨Function.update run.1.lastnames lastname (some call.component), lastnameid⟩,
      run.2 ++ [⟨run.1, call, getComponentTemporaryFile call.component lastname⟩]) := by
  refine ⟨fun a ha => ?_, fun name component hname => ?_, h.stable.snoc hsame⟩
  · rcases List.mem_append.mp ha with ha | ha
    · exact (h.named a ha).keep fun _ _ hname => update_keep hfree hname
    · rw [List.mem_singleton.mp ha]
      exact hnamed
  · by_cases heq : name = lastname
    · subst heq
      have hcomponent : some call.component = some component :=
        (Function.update_self name _ run.1.lastnames).symm.trans hname
      refine ⟨_, List.mem_append_right _ List.mem_cons_self, rfl, Option.some.inj hcomponent⟩
    · have hbefore : run.1.lastnames name = some component :=
        (Function.update_of_ne heq _ run.1.lastnames).symm.trans hname
      obtain ⟨a, ha, hlast⟩ := h.returned name component hbefore
      exact ⟨a, List.mem_append_left _ ha, hlast⟩

/-- A call that is clear keeps the names consistent. -/
theorem Consistent.step (h : Consistent run) (hclear : Clear run call) :
    Consistent (answer run call) := by
  obtain ⟨context', lastname, hanswers, heq⟩ := answer_cases run call
  rw [heq]
  cases hanswers with
  | own howner =>
    refine ⟨fun a ha => ?_, fun name component hname => ?_, h.stable.snoc ?_⟩
    · rcases List.mem_append.mp ha with ha | ha
      · exact h.named a ha
      · rw [List.mem_singleton.mp ha]
        exact .same rfl howner
    · obtain ⟨a, ha, hlast⟩ := h.returned name component hname
      exact ⟨a, List.mem_append_left _ ha, hlast⟩
    · intro b hb (hcall : b.call = call)
      cases h.named b hb with
      | same hfile => rw [hfile, hcall]
      | renamed _ _ hother hne =>
        rw [hcall, howner] at hother
        rw [hcall] at hne
        exact absurd (Option.some.inj hother).symm hne
  | new howner =>
    refine h.put (fun other hother => nomatch howner.symm.trans hother) (fun b hb hcall => ?_)
      (.same rfl (Function.update_self _ _ _))
    cases h.named b hb with
    | same _ hown =>
      rw [hcall, howner] at hown
      cases hown
    | renamed _ _ hother _ =>
      rw [hcall, howner] at hother
      cases hother
  | @other owner howner hne =>
    obtain ⟨hagain, hfree⟩ := hclear owner howner hne
    refine h.put hfree (fun b hb hcall => ?_) ?_
    · cases h.named b hb with
      | same _ hown =>
        rw [hcall, howner] at hown
        exact absurd (Option.some.inj hown) hne
      | renamed hfile =>
        have hid := hagain b hb hcall
        rw [hfile, hcall, Context.renamed, hid]
        rfl
    · refine .renamed rfl (Function.update_self _ _ _) ?_ hne
      exact (Function.update_of_ne (renamed_ne run.1 call.lastname).symm _ _).trans howner

/-- A call that is not clear is answered against what was answered before. -/
theorem Consistent.clear (h : Consistent run) (hunique : Unique (answer run call).2)
    (hstable : Stable (answer run call).2) : Clear run call := by
  intro owner howner hne
  obtain ⟨context', lastname, hanswers, heq⟩ := answer_cases run call
  rw [heq] at hunique hstable
  cases hanswers with
  | own hown =>
    rw [hown] at howner
    exact absurd (Option.some.inj howner).symm hne
  | new hnone => exact nomatch hnone.symm.trans howner
  | other =>
    constructor
    · intro a ha hcall
      have hfile := hstable a (List.mem_append_left _ ha) _
        (List.mem_append_right _ List.mem_cons_self) hcall
      cases h.named a ha with
      | same _ hown =>
        rw [hcall, howner] at hown
        exact absurd (Option.some.inj hown) hne
      | renamed hrenamed =>
        rw [hrenamed, hcall] at hfile
        exact renamed_inj (congrArg File.lastname hfile)
    · intro other hother
      by_contra hother'
      obtain ⟨a, ha, hlast, rfl⟩ := h.returned _ _ hother
      exact hunique a (List.mem_append_left _ ha) _ (List.mem_append_right _ List.mem_cons_self)
        hother' hlast

end Steps

section Runs
variable {calls : List Call}

theorem run_snoc (calls : List Call) (call : Call) :
    run (calls ++ [call]) = answer (run calls) call := by
  unfold run
  rw [List.foldl_append]
  rfl

theorem mem_run {more : List Call} {a : Answer} (h : a ∈ (run calls).2) :
    a ∈ (run (calls ++ more)).2 := by
  induction more using List.reverseRecOn with
  | nil =>
    rw [List.append_nil]
    exact h
  | append_singleton more call ih =>
    obtain ⟨context', lastname, -, heq⟩ := answer_cases (run (calls ++ more)) call
    rw [← List.append_assoc, run_snoc, heq]
    exact List.mem_append_left _ ih

theorem consistent_start : Consistent (run []) := ⟨(fun _ h => nomatch h),
  (fun _ _ h => nomatch h), fun _ h => nomatch h⟩

theorem Consistent.unique {run : Context × List Answer} (h : Consistent run) : Unique run.2 := by
  have howned : ∀ a ∈ run.2, run.1.lastnames a.file.lastname = some a.call.component := by
    intro a ha
    cases h.named a ha with
    | same hfile howner =>
      rw [hfile]
      exact howner
    | renamed hfile howner =>
      rw [hfile]
      exact howner
  intro a ha b hb hne hlast
  have hsome := (howned a ha).symm.trans (hlast ▸ howned b hb)
  exact hne (Option.some.inj hsome)

/-- As long as every call is clear the names are consistent. -/
theorem consistent_of_clear (h : ∀ before call after, calls = before ++ call :: after →
    Clear (run before) call) : Consistent (run calls) := by
  induction calls using List.reverseRecOn with
  | nil => exact consistent_start
  | append_singleton calls call ih =>
    rw [run_snoc]
    refine (ih fun before call' after heq => h before call' (after ++ [call]) ?_).step
      (h calls call [] rfl)
    rw [heq, List.append_assoc]
    rfl

theorem Consistent.clear_of_unique {before after : List Call} {call : Call}
    (hbefore : Consistent (run before)) (hunique : Unique (run calls).2)
    (hstable : Stable (run calls).2) (h : calls = before ++ [call] ++ after) :
    Clear (run before) call := by
  have hmem : ∀ a ∈ (answer (run before) call).2, a ∈ (run calls).2 := by
    intro a ha
    rw [← run_snoc] at ha
    rw [h]
    exact mem_run ha
  exact hbefore.clear (fun a ha b hb => hunique a (hmem a ha) b (hmem b hb))
    fun a ha b hb => hstable a (hmem a ha) b (hmem b hb)

/-- Where the answers are as they should be, the names are consistent all along. -/
theorem consistent_of_unique (hunique : Unique (run calls).2) (hstable : Stable (run calls).2)
    {before after : List Call} (h : calls = before ++ after) : Consistent (run before) := by
  induction before using List.reverseRecOn generalizing after with
  | nil => exact consistent_start
  | append_singleton before call ih =>
    have hbefore : Consistent (run before) := ih (h.trans (List.append_assoc ..))
    rw [run_snoc]
    exact hbefore.step (hbefore.clear_of_unique hunique hstable h)

end Runs

/-- The names of a context are unique and stable if and only if every call is clear. -/
theorem names_unique_iff (calls : List Call) : (Unique (run calls).2 ∧ Stable (run calls).2) ↔
    ∀ before call after, calls = before ++ call :: after → Clear (run before) call := by
  constructor
  · rintro ⟨hunique, hstable⟩ before call after h
    have hbefore := consistent_of_unique hunique hstable h
    exact hbefore.clear_of_unique hunique hstable (h.trans (List.append_cons ..))
  · intro h
    have hconsistent := consistent_of_clear h
    exact ⟨hconsistent.unique, hconsistent.stable⟩

/-- A component that asks again for the name of another one is given another file, and a name that
is asked for may be given to another component as one that was made. -/
theorem renamed_again :
    ¬ Stable (run [⟨"a.A", "x.cpp"⟩, ⟨"b.B", "x.cpp"⟩, ⟨"b.B", "x.cpp"⟩]).2 ∧
      ¬ Unique (run [⟨"a.A", "x.cpp"⟩, ⟨"c.C", "0_x.cpp"⟩, ⟨"b.B", "x.cpp"⟩]).2 := by
  constructor
  · intro h
    have hfile := h _ (List.mem_cons_of_mem _ List.mem_cons_self) _
      (List.mem_cons_of_mem _ (List.mem_cons_of_mem _ List.mem_cons_self)) rfl
    exact absurd hfile (by decide)
  · intro h
    have hname := h _ (List.mem_cons_of_mem _ List.mem_cons_self) _
      (List.mem_cons_of_mem _ (List.mem_cons_of_mem _ List.mem_cons_self)) (by decide)
    exact absurd rfl hname

end Codinalte.Build
