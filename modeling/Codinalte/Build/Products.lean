import Codinalte.Build.Maker

/-! What the files that were built were produced from, after any commands and modifications. -/

namespace Codinalte.Build.Maker
open Codinalte.Machine
variable {F : Type}

def Command.out : Command F → Path
  | .compile _ obj => obj
  | .archive out _ => out

namespace Project

def archives (project : Project F) : List (Path × List Path) :=
  project.libraries.map (fun l => (l.outlibfile, l.files)) ++ [(project.outelf, project.files)]

def commands (project : Project F) : List (Command F) :=
  project.compilations.map (fun c => .compile c.src c.obj) ++
    project.archives.map fun a => .archive a.1 a.2

end Project

/-- What a file that the command produced looks like. -/
def Makes : Command F → Content F → Prop
  | .compile src _, c => ∃ modified, c = .object src modified
  | .archive _ files, c => ∃ members, c = .archive members ∧ members.map Prod.fst = files

/-- What is known of every file that was built: what it was produced from is still the same where
that is not newer. -/
structure Sound (project : Project F) (d : Disk F) : Prop where
  files : ∀ f ∈ d.fs.files, 0 < d.modified f
  past : ∀ f, d.modified f ≤ d.clock
  dates : ∀ path t, d.date path = some t → t ≤ d.clock
  object : ∀ path t src modified, d.product path = some (t, .object src modified) →
    ∀ f, d.modified f ≤ t → modified f = d.modified f
  archive : ∀ path t members, d.product path = some (t, .archive members) →
    ∀ file c, (file, c) ∈ members → ∀ t', d.date file = some t' → t' < t → c = d.content file
  made : ∀ command ∈ project.commands, ∀ c, d.content command.out = some c → Makes command c

section History
variable {project : Project F} {d : Disk F}

theorem date_eq {path : Path} {t : Nat} {c : Content F} (h : d.product path = some (t, c)) :
    d.date path = some t := by
  unfold Disk.date
  rw [h]
  rfl

theorem content_eq {path : Path} {t : Nat} {c : Content F} (h : d.product path = some (t, c)) :
    d.content path = some c := by
  unfold Disk.content
  rw [h]
  rfl

theorem product_of_content {path : Path} {c : Content F} (h : d.content path = some c) :
    ∃ t, d.product path = some (t, c) := by
  obtain ⟨⟨t, c'⟩, hproduct, rfl⟩ := Option.map_eq_some_iff.mp h
  exact ⟨t, hproduct⟩

theorem product_of_date {path : Path} {t : Nat} (h : d.date path = some t) :
    ∃ c, d.product path = some (t, c) := by
  obtain ⟨⟨t', c⟩, hproduct, rfl⟩ := Option.map_eq_some_iff.mp h
  exact ⟨c, hproduct⟩

theorem Disk.Initial.sound (h : d.Initial) : Sound project d := by
  have hnone : ∀ path, d.date path = none ∧ d.content path = none := by
    intro path
    unfold Disk.date Disk.content
    rw [h.product]
    exact ⟨rfl, rfl⟩
  refine ⟨h.files, h.modified, ?_, ?_, ?_, ?_⟩
  · intro path t ht
    cases (hnone path).1.symm.trans ht
  · intro path t src modified hpath
    cases (h.product path).symm.trans hpath
  · intro path t members hpath
    cases (h.product path).symm.trans hpath
  · intro command _ c hc
    cases (hnone _).2.symm.trans hc

theorem execute_out (d : Disk F) (command : Command F) :
    ∃ c, (d.execute command).product command.out = some (d.clock + 1, c) ∧
      (∀ src obj, command = .compile src obj → c = .object src d.modified) ∧
      ∀ out files, command = .archive out files →
        c = .archive (files.map fun file => (file, d.content file)) := by
  cases command with
  | compile src obj =>
    refine ⟨_, Function.update_self .., ?_, fun _ _ h => nomatch h⟩
    rintro src obj ⟨⟩
    rfl
  | archive out files =>
    refine ⟨_, Function.update_self .., (fun _ _ h => nomatch h), ?_⟩
    rintro out files ⟨⟩
    rfl

theorem execute_of_ne (d : Disk F) {command : Command F} {path : Path} (h : path ≠ command.out) :
    (d.execute command).product path = d.product path := by
  cases command with
  | compile src obj => exact Function.update_of_ne h _ _
  | archive out files => exact Function.update_of_ne h _ _

theorem execute_frame (d : Disk F) (command : Command F) :
    (d.execute command).clock = d.clock + 1 ∧ (d.execute command).modified = d.modified ∧
      (d.execute command).fs = d.fs ∧ (d.execute command).dep = d.dep := by
  cases command <;> exact ⟨rfl, rfl, rfl, rfl⟩

theorem execute_content_of_ne (d : Disk F) {command : Command F} {path : Path}
    (h : path ≠ command.out) : (d.execute command).content path = d.content path := by
  unfold Disk.content
  rw [execute_of_ne d h]

/-- What a command writes is newer than all that was there. -/
theorem Sound.execute (h : Sound project d) {command : Command F}
    (hout : ∀ other ∈ project.commands, other.out = command.out → other = command) :
    Sound project (d.execute command) := by
  obtain ⟨c, hproduct, hcompile, harchive⟩ := execute_out d command
  obtain ⟨hclock, hmodified, hfs, -⟩ := execute_frame d command
  refine ⟨?_, ?_, ?_, ?_, ?_, ?_⟩
  · rw [hfs, hmodified]
    exact h.files
  · intro f
    rw [hmodified, hclock]
    exact Nat.le_succ_of_le (h.past f)
  · intro path t ht
    rw [hclock]
    by_cases hpath : path = command.out
    · subst hpath
      cases (date_eq hproduct).symm.trans ht
      exact Nat.le_refl _
    · unfold Disk.date at ht
      rw [execute_of_ne d hpath] at ht
      exact Nat.le_succ_of_le (h.dates path t ht)
  · intro path t src modified hobject f hf
    rw [hmodified] at hf ⊢
    by_cases hpath : path = command.out
    · subst hpath
      cases hproduct.symm.trans hobject
      cases command with
      | compile src' obj =>
        cases hcompile src' obj rfl
        rfl
      | archive out files => cases harchive out files rfl
    · rw [execute_of_ne d hpath] at hobject
      exact h.object path t src modified hobject f hf
  · intro path t members hmembers file c' hmem t' ht' hlt
    by_cases hpath : path = command.out
    · subst hpath
      cases hproduct.symm.trans hmembers
      have hfile : file ≠ command.out := by
        rintro rfl
        cases (date_eq hproduct).symm.trans ht'
        exact Nat.lt_irrefl _ hlt
      cases command with
      | compile src obj => cases hcompile src obj rfl
      | archive out files =>
        cases harchive out files rfl
        obtain ⟨file', -, heq⟩ := List.mem_map.mp hmem
        cases heq
        rw [execute_content_of_ne d hfile]
    · rw [execute_of_ne d hpath] at hmembers
      have hfile : file ≠ command.out := by
        rintro rfl
        cases (date_eq hproduct).symm.trans ht'
        have := h.dates path t (date_eq hmembers)
        omega
      unfold Disk.date at ht'
      rw [execute_of_ne d hfile] at ht'
      rw [execute_content_of_ne d hfile]
      exact h.archive path t members hmembers file c' hmem t' ht' hlt
  · intro other hother c' hc'
    by_cases hpath : other.out = command.out
    · cases hout other hother hpath
      cases (content_eq hproduct).symm.trans hc'
      cases command with
      | compile src obj => exact ⟨_, hcompile src obj rfl⟩
      | archive out files =>
        refine ⟨_, harchive out files rfl, ?_⟩
        rw [List.map_map]
        exact List.map_id'' (fun _ => rfl) files
    · rw [execute_content_of_ne d hpath] at hc'
      exact h.made other hother c' hc'

/-- What is modified is newer than all that was built. -/
theorem Sound.modify [DecidableEq F] (h : Sound project d) (file : F)
    (text : Except ParseError (List String × List String)) : Sound project (d.modify file text) := by
  have hsame : ∀ f t, t ≤ d.clock → (d.modify file text).modified f ≤ t →
      (d.modify file text).modified f = d.modified f := by
    intro f t ht hf
    by_cases hfile : f = file
    · subst hfile
      have hnew : (d.modify f text).modified f = d.clock + 1 := Function.update_self ..
      omega
    · exact Function.update_of_ne hfile _ _
  refine ⟨?_, ?_, ?_, ?_, h.archive, h.made⟩
  · intro f hf
    by_cases hfile : f = file
    · subst hfile
      have hnew : (d.modify f text).modified f = d.clock + 1 := Function.update_self ..
      omega
    · have hold : (d.modify file text).modified f = d.modified f := Function.update_of_ne hfile _ _
      rw [hold]
      exact h.files f hf
  · intro f
    have hclock : (d.modify file text).clock = d.clock + 1 := rfl
    by_cases hfile : f = file
    · subst hfile
      have hnew : (d.modify f text).modified f = d.clock + 1 := Function.update_self ..
      omega
    · have hold : (d.modify file text).modified f = d.modified f := Function.update_of_ne hfile _ _
      have := h.past f
      omega
  · intro path t ht
    have hle : t ≤ d.clock := h.dates path t ht
    have hclock : (d.modify file text).clock = d.clock + 1 := rfl
    omega
  · intro path t src modified hpath f hf
    have heq := hsame f t (h.dates path t (date_eq hpath)) hf
    rw [heq] at hf ⊢
    exact h.object path t src modified hpath f hf

end History

end Codinalte.Build.Maker
