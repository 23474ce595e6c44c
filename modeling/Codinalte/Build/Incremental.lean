import Codinalte.Build.Plan

/-! After a run of the tool that ends with success everything is up to date, whatever happened
before, as far as the files that it leaves alone were. -/

namespace Codinalte.Build.Maker
open Codinalte.Machine
variable {F : Type}

section Ended
variable {project : Project F} {d : Disk F} {s : Run F}

theorem inv_begin (honce : Once project) (h : Sound project d) : Inv project d (begin project d) where
  kept := ⟨honce.ordered, (fun _ h => nomatch h), (fun _ h => nomatch h), (fun _ _ h => nomatch h),
    (fun _ _ h => nomatch h), fun _ _ _ h => nomatch h⟩
  results := ⟨rfl, rfl, h, fun _ hitem => project.item_of hitem, (fun _ h => nomatch h),
    fun _ _ => rfl, (fun _ h => nomatch h), (fun _ h => nomatch h),
    fun _ h => nomatch h⟩
  decided := ⟨fun _ _ _ _ _ => rfl, fun _ hc => .inl (project.compile_item hc),
    fun _ ha => .inl (project.archive_item ha)⟩

theorem date_of_not_needed {c : Compilation F} (h : Sound project d)
    (hfile : c.dep = none → c.src ∈ d.fs.files) (hneed : d.needCompile c = false) :
    ∃ t, d.date c.obj = some t := by
  unfold Disk.needCompile at hneed
  cases hdep : c.dep with
  | none =>
    rw [hdep] at hneed
    have hpositive := h.files c.src (hfile hdep)
    cases hdate : d.date c.obj with
    | none =>
      have hle := of_decide_eq_false hneed
      rw [hdate, Option.getD_none] at hle
      exact absurd hpositive hle
    | some t => exact ⟨t, rfl⟩
  | some dep =>
    rw [hdep] at hneed
    cases hdate : d.date c.obj with
    | none =>
      rw [hdate] at hneed
      cases hneed
    | some t => exact ⟨t, rfl⟩

/-- What no command was started for is as the run found it. -/
theorem Inv.unwritten (h : Inv project d s) (honce : Once project) {command : Command F}
    (hcommand : command ∈ project.commands) (hnot : ∀ before, (command, before) ∉ s.started) :
    s.disk.product command.out = d.product command.out := by
  refine h.results.untouched _ fun task hmem _ hout => ?_
  have heq := honce.command (h.results.commands _ (mem_started hmem)) hcommand hout
  exact hnot task.predecessors (heq ▸ mem_started hmem)

theorem Run.Success.finished (hsuccess : s.Success) {command : Command F} {before : List Nat}
    (h : (command, before) ∈ s.started) :
    ∃ task ∈ s.tasks, task.finished = true ∧ task.command = command := by
  obtain ⟨task, hmem, heq⟩ := exists_task h
  exact ⟨task, hmem, hsuccess.2.2 task hmem, congrArg Prod.fst heq⟩

/-- What the run has decided, once it has ended. -/
theorem Inv.compiled (h : Inv project d s) (hsuccess : s.Success) {c : Compilation F}
    (hc : c ∈ project.compilations) (hnot : ∀ before, (.compile c.src c.obj, before) ∉ s.started) :
    d.needCompile c = false := by
  rcases h.decided.compiled c hc with ⟨inTop, hmem⟩ | ⟨before, hmem⟩ | hneed
  · rw [hsuccess.2.1] at hmem
    cases hmem
  · exact absurd hmem (hnot before)
  · exact hneed

theorem Inv.gathered (h : Inv project d s) (hsuccess : s.Success) {a : Path × List Path}
    (ha : a ∈ project.archives) (hnot : ∀ before, (.archive a.1 a.2, before) ∉ s.started) :
    d.product a.1 ≠ none ∧ ∀ x ∈ s.started, x.1.out ∉ a.2 := by
  rcases h.decided.gathered a ha with ⟨item, hmem, -⟩ | ⟨before, hmem⟩ | ⟨hproduct, -, hnone⟩
  · rw [hsuccess.2.1] at hmem
    cases hmem
  · exact absurd hmem (hnot before)
  · exact ⟨hproduct, hnone⟩

/-- An archive has the current content of each of its files. -/
theorem Inv.members (h : Inv project d s) (honce : Once project) (hsuccess : s.Success)
    (hsound : Sound project d) {a : Path × List Path} (ha : a ∈ project.archives)
    (hnewer : (∀ x ∈ s.started, x.1.out ∉ a.2) → d.product a.1 ≠ none →
      ∀ t, d.date a.1 = some t → ∀ f ∈ a.2, ∀ t', d.date f = some t' → t' < t)
    (hfiles : ∀ f ∈ a.2, s.disk.content f ≠ none) :
    ∃ members, s.disk.content a.1 = some (.archive members) ∧ members.map Prod.fst = a.2 ∧
      ∀ f m, (f, m) ∈ members → m = s.disk.content f := by
  by_cases hstarted : ∃ before, (Command.archive a.1 a.2, before) ∈ s.started
  · obtain ⟨before, hmem⟩ := hstarted
    obtain ⟨task, htask, hfinished, hcommand⟩ := hsuccess.finished hmem
    refine ⟨_, h.results.archive task htask hfinished _ _ hcommand, ?_, fun f m hm => ?_⟩
    · rw [List.map_map]
      exact List.map_id'' (fun _ => rfl) _
    · obtain ⟨file, -, heq⟩ := List.mem_map.mp hm
      cases heq
      rfl
  · have hnot := not_exists.mp hstarted
    obtain ⟨hproduct, hnone⟩ := h.gathered hsuccess ha hnot
    have hsame : s.disk.product a.1 = d.product a.1 := h.unwritten honce (archive_mem ha) hnot
    obtain ⟨⟨t, content⟩, hsome⟩ := Option.ne_none_iff_exists'.mp hproduct
    obtain ⟨members, rfl, hmembers⟩ := hsound.made _ (archive_mem ha) content (content_eq hsome)
    refine ⟨members, content_eq (hsame.trans hsome), hmembers, fun f m hm => ?_⟩
    have hf : f ∈ a.2 := hmembers ▸ List.mem_map.mpr ⟨_, hm, rfl⟩
    have hleft : s.disk.product f = d.product f := by
      refine h.results.untouched f fun task hmem _ hout => ?_
      exact hnone _ (mem_started hmem) (hout ▸ hf)
    obtain ⟨object, hobject⟩ := Option.ne_none_iff_exists'.mp (hfiles f hf)
    obtain ⟨t', hproduct'⟩ := product_of_content hobject
    have hdate := date_eq (hleft.symm.trans hproduct')
    have hold := hsound.archive _ t members hsome f m hm t' hdate
      (hnewer hnone hproduct t (date_eq hsome) f hf t' hdate)
    rw [hold]
    unfold Disk.content
    rw [hleft]

end Ended

variable [DecidableEq F]

/-- What the content of a source depends on. -/
def DependsOn (d : Disk F) (directories : Directories F) (src f : F) : Prop :=
  f = src ∨ Reaches d.fs directories.all src f

def CurrentObject (d : Disk F) (directories : Directories F) (c : Compilation F)
    (content : Content F) : Prop :=
  ∃ modified, content = .object c.src modified ∧
    ∀ f, DependsOn d directories c.src f → modified f = d.modified f

def CurrentLibrary (d : Disk F) (directories : Directories F) (l : Library F)
    (content : Content F) : Prop :=
  ∃ members, content = .archive members ∧ members.map Prod.fst = l.files ∧
    ∀ c ∈ l.compilations, ∀ m, (c.obj, m) ∈ members →
      ∃ object, m = some object ∧ CurrentObject d directories c object

def CurrentElf (d : Disk F) (directories : Directories F) (project : Project F)
    (content : Content F) : Prop :=
  ∃ members, content = .archive members ∧ members.map Prod.fst = project.files ∧
    (∀ l ∈ project.libraries, ∀ m, (l.outlibfile, m) ∈ members →
      ∃ library, m = some library ∧ CurrentLibrary d directories l library) ∧
    ∀ c ∈ project.header.toList ++ [project.common], ∀ m, (c.obj, m) ∈ members →
      ∃ object, m = some object ∧ CurrentObject d directories c object

/-- Everything was produced from the current content of the sources and headers it depends on. -/
structure UpToDate (d : Disk F) (directories : Directories F) (project : Project F) : Prop where
  objects : ∀ c ∈ project.compilations, ∃ content, d.content c.obj = some content ∧
    CurrentObject d directories c content
  libraries : ∀ l ∈ project.libraries, ∃ content, d.content l.outlibfile = some content ∧
    CurrentLibrary d directories l content
  elf : ∃ content, d.content project.outelf = some content ∧ CurrentElf d directories project content

/-- An object that is not compiled again is not older than what its source depends on, and an
archive of which nothing is compiled or archived again is newer than its files. -/
structure Ready (d : Disk F) (directories : Directories F) (project : Project F) : Prop where
  objects : ∀ c ∈ project.compilations, d.needCompile c = false →
    ∀ f, DependsOn d directories c.src f → ∀ t, d.date c.obj = some t → d.modified f ≤ t
  libraries : ∀ l ∈ project.libraries, (∀ c ∈ l.compilations, d.needCompile c = false) →
    ∀ t, d.date l.outlibfile = some t → ∀ f ∈ l.files, ∀ t', d.date f = some t' → t' < t
  elf : (∀ c ∈ project.compilations, d.needCompile c = false) →
    (∀ l ∈ project.libraries, d.product l.outlibfile ≠ none) →
    ∀ t, d.date project.outelf = some t → ∀ f ∈ project.files, ∀ t', d.date f = some t' → t' < t

section Success
variable {project : Project F} {d : Disk F} {directories : Directories F} {s : Run F}

theorem dependsOn_iff (hfs : s.disk.fs = d.fs) (src f : F) :
    DependsOn s.disk directories src f ↔ DependsOn d directories src f := by
  unfold DependsOn
  rw [hfs]

theorem Inv.object (h : Inv project d s) (honce : Once project) (hsuccess : s.Success)
    (hsound : Sound project d) (hready : Ready d directories project) {c : Compilation F}
    (hc : c ∈ project.compilations) (hfile : c.dep = none → c.src ∈ d.fs.files) :
    ∃ content, s.disk.content c.obj = some content ∧ CurrentObject s.disk directories c content := by
  by_cases hstarted : ∃ before, (Command.compile c.src c.obj, before) ∈ s.started
  · obtain ⟨before, hmem⟩ := hstarted
    obtain ⟨task, htask, hfinished, hcommand⟩ := hsuccess.finished hmem
    refine ⟨_, h.results.object task htask hfinished _ _ hcommand, _, rfl, fun f _ => ?_⟩
    rw [h.results.modified]
  · have hnot := not_exists.mp hstarted
    have hneed := h.compiled hsuccess hc hnot
    have hsame : s.disk.product c.obj = d.product c.obj := h.unwritten honce (compile_mem hc) hnot
    obtain ⟨t, ht⟩ := date_of_not_needed hsound hfile hneed
    obtain ⟨content, hproduct⟩ := product_of_date ht
    obtain ⟨modified, rfl⟩ := hsound.made _ (compile_mem hc) content (content_eq hproduct)
    refine ⟨_, content_eq (hsame.trans hproduct), modified, rfl, fun f hf => ?_⟩
    rw [h.results.modified]
    refine hsound.object _ _ _ _ hproduct f (hready.objects c hc hneed f ?_ t ht)
    exact (dependsOn_iff h.results.fs _ _).mp hf

theorem Inv.upToDate (h : Inv project d s) (honce : Once project) (hsuccess : s.Success)
    (hsound : Sound project d) (hready : Ready d directories project)
    (hfile : ∀ c ∈ project.compilations, c.dep = none → c.src ∈ d.fs.files) :
    UpToDate s.disk directories project := by
  have hobjects : ∀ c ∈ project.compilations, ∃ content, s.disk.content c.obj = some content ∧
      CurrentObject s.disk directories c content :=
    fun c hc => h.object honce hsuccess hsound hready hc (hfile c hc)
  have hin : ∀ l ∈ project.libraries, ∀ c ∈ l.compilations, c ∈ project.compilations :=
    fun l hl c hc => List.mem_append_left _ (List.mem_append_left _
      (List.mem_flatMap.mpr ⟨l, hl, hc⟩))
  -- nothing is compiled for a library if none of its objects is written
  have hleft : ∀ l ∈ project.libraries, (∀ x ∈ s.started, x.1.out ∉ l.files) →
      ∀ c ∈ l.compilations, d.needCompile c = false := by
    intro l hl hnone c hc
    refine h.compiled hsuccess (hin l hl c hc) fun before hmem => ?_
    exact hnone _ hmem (Library.mem_files.mpr ⟨c, hc, rfl⟩)
  have hlibraries : ∀ l ∈ project.libraries, ∃ content, s.disk.content l.outlibfile = some content ∧
      CurrentLibrary s.disk directories l content := by
    intro l hl
    have hfiles : ∀ f ∈ l.files, s.disk.content f ≠ none := by
      intro f hf
      obtain ⟨c, hc, rfl⟩ := Library.mem_files.mp hf
      obtain ⟨content, hcontent, -⟩ := hobjects c (hin l hl c hc)
      exact Option.ne_none_iff_exists'.mpr ⟨content, hcontent⟩
    obtain ⟨members, hcontent, hnames, hmembers⟩ := h.members honce hsuccess hsound
      (project.library_archive hl) (fun hnone _ => hready.libraries l hl (hleft l hl hnone)) hfiles
    refine ⟨_, hcontent, members, rfl, hnames, fun c hc m hm => ?_⟩
    obtain ⟨content, hobject, hcurrent⟩ := hobjects c (hin l hl c hc)
    exact ⟨content, (hmembers _ _ hm).trans hobject, hcurrent⟩
  refine ⟨hobjects, hlibraries, ?_⟩
  have hlast : ∀ c ∈ project.header.toList ++ [project.common], c ∈ project.compilations := by
    intro c hc
    unfold Project.compilations
    rw [List.append_assoc]
    exact List.mem_append_right _ hc
  have hfiles : ∀ f ∈ project.files, s.disk.content f ≠ none := by
    intro f hf
    rw [Option.ne_none_iff_exists']
    rcases Project.mem_files.mp hf with ⟨l, hl, rfl⟩ | ⟨c, hc, rfl⟩ | rfl
    · obtain ⟨content, hcontent, -⟩ := hlibraries l hl
      exact ⟨content, hcontent⟩
    · obtain ⟨content, hcontent, -⟩ :=
        hobjects c (hlast c (List.mem_append_left _ (Option.mem_toList.mpr hc)))
      exact ⟨content, hcontent⟩
    · obtain ⟨content, hcontent, -⟩ :=
        hobjects project.common (hlast _ (List.mem_append_right _ (List.mem_singleton_self _)))
      exact ⟨content, hcontent⟩
  have hnewer : (∀ x ∈ s.started, x.1.out ∉ project.files) → d.product project.outelf ≠ none →
      ∀ t, d.date project.outelf = some t →
        ∀ f ∈ project.files, ∀ t', d.date f = some t' → t' < t := by
    intro hnone _
    have hlibrary : ∀ l ∈ project.libraries, d.product l.outlibfile ≠ none ∧
        ∀ x ∈ s.started, x.1.out ∉ l.files := by
      intro l hl
      refine h.gathered hsuccess (project.library_archive hl) fun before hmem => ?_
      exact hnone _ hmem (Project.mem_files.mpr (.inl ⟨l, hl, rfl⟩))
    refine hready.elf (fun c hc => ?_) fun l hl => (hlibrary l hl).1
    rcases List.mem_append.mp hc with hc' | hc'
    · rcases List.mem_append.mp hc' with hc' | hc'
      · obtain ⟨l, hl, hin⟩ := List.mem_flatMap.mp hc'
        exact hleft l hl (hlibrary l hl).2 c hin
      · refine h.compiled hsuccess hc fun before hmem => ?_
        exact hnone _ hmem (Project.mem_files.mpr (.inr (.inl ⟨c, Option.mem_toList.mp hc', rfl⟩)))
    · cases List.mem_singleton.mp hc'
      refine h.compiled hsuccess hc fun before hmem => ?_
      exact hnone _ hmem (Project.mem_files.mpr (.inr (.inr rfl)))
  obtain ⟨members, hcontent, hnames, hmembers⟩ :=
    h.members honce hsuccess hsound project.elf_archive hnewer hfiles
  refine ⟨_, hcontent, members, rfl, hnames, fun l hl m hm => ?_, fun c hc m hm => ?_⟩
  · obtain ⟨content, hlibrary, hcurrent⟩ := hlibraries l hl
    exact ⟨content, (hmembers _ _ hm).trans hlibrary, hcurrent⟩
  · obtain ⟨content, hobject, hcurrent⟩ := hobjects c (hlast c hc)
    exact ⟨content, (hmembers _ _ hm).trans hobject, hcurrent⟩

end Success

section History
variable {project : Project F} {d d' : Disk F} {directories : Directories F}

/-- What holds at the end of a run, whether it succeeds or not. -/
theorem inv_run (honce : Once project) (h : Sound project d) {actions : List Action} {s : Run F}
    (hrun : Machine.run (Run.step directories) (begin project d) actions = some s) :
    Inv project d s :=
  run_induction (Inv.step honce.distinct) (inv_begin honce h) hrun

theorem sound_happens (honce : Once project) (event : Event F) (h : Sound project d)
    (hevent : happens project directories d event = some d') :
    Sound project d' ∧ d'.fs.files = d.fs.files := by
  cases event with
  | modify file text =>
    obtain ⟨-, heq⟩ := Option.ite_none_right_eq_some.mp hevent
    cases heq
    exact ⟨h.modify file text, rfl⟩
  | toolRun actions =>
    obtain ⟨s, hrun, hend⟩ := Option.bind_eq_some_iff.mp hevent
    obtain ⟨-, heq⟩ := Option.ite_none_right_eq_some.mp hend
    cases heq
    have hinv := inv_run honce h hrun
    exact ⟨hinv.results.sound, congrArg FileSystem.files hinv.results.fs⟩

theorem sound_history (honce : Once project) {events : List (Event F)} (h : Sound project d)
    (hrun : Machine.run (happens project directories) d events = some d') :
    Sound project d' ∧ d'.fs.files = d.fs.files := by
  have hstep : ∀ (e : Disk F) (event : Event F) (e' : Disk F),
      (Sound project e ∧ e.fs.files = d.fs.files) → happens project directories e event = some e' →
        Sound project e' ∧ e'.fs.files = d.fs.files := by
    intro e event e' he hevent
    obtain ⟨hsound, hfiles⟩ := sound_happens honce event he.1 hevent
    exact ⟨hsound, hfiles.trans he.2⟩
  exact run_induction hstep ⟨h, rfl⟩ hrun

end History

/-- Before the first run there is nothing that could be left alone. -/
theorem Disk.Initial.ready {d : Disk F} (h : d.Initial) (directories : Directories F)
    (project : Project F) : Ready d directories project := by
  have hdate : ∀ path t, d.date path ≠ some t := by
    intro path t ht
    obtain ⟨c, hproduct⟩ := product_of_date ht
    cases (h.product path).symm.trans hproduct
  exact ⟨fun _ _ _ _ _ t ht => absurd ht (hdate _ t), fun _ _ _ t ht => absurd ht (hdate _ t),
    fun _ _ t ht => absurd ht (hdate _ t)⟩

theorem browse_header {target : Target F} {component : Component F} {files : Finset F}
    {c : Compilation F} (hc : c ∈ (browseComponent target files component).compilations)
    (hdep : c.dep = none) : c.src ∈ files := by
  rcases List.mem_append.mp hc with hc | hc
  · rcases List.mem_append.mp hc with hc | hc
    · obtain ⟨l, hl, hc⟩ := List.mem_flatMap.mp hc
      obtain ⟨p, -, rfl⟩ := List.mem_map.mp hl
      rcases List.mem_append.mp hc with hc | hc
      · unfold Target.wrapper at hc
        cases hstyle : target.style with
        | C =>
          rw [hstyle] at hc
          cases List.mem_singleton.mp hc
          cases hdep
        | CPP =>
          rw [hstyle] at hc
          cases hc
      · obtain ⟨source, -, rfl⟩ := List.mem_map.mp hc
        cases hdep
    · obtain ⟨hin, heq⟩ := Option.ite_none_right_eq_some.mp (Option.mem_toList.mp hc)
      cases heq
      exact hin.2
  · cases List.mem_singleton.mp hc
    cases hdep

/-- A primitive with one source in a composite. -/
def sampleComponent : Component String :=
  .composite ["p", "Top"] true [.primitive ⟨["p", "A"], [⟨"a.c", "a.c", by decide⟩]⟩ true]

def sampleTarget : Target String where
  style := .CPP
  header := false
  SourceExtension := "cc"
  OBJ := "o"
  LIB := "a"
  S := "s"
  elfExtension := "elf"
  temporary _ filename := filename
  directories := ⟨[], ["src"], "tmp"⟩

def sampleDisk : Disk String where
  clock := 1
  fs := ⟨{"a.c", "Top-nmf.cc"}, fun _ name => name, fun _ => none, fun _ => .ok ([], [])⟩
  modified _ := 1
  product _ := none
  dep _ := none

def buildAll : List Action :=
  [.tool, .tool, .tool, .tool, .tool, .tool, .finish 0, .finish 1, .finish 2, .finish 3]

theorem sampleDisk_initial : sampleDisk.Initial :=
  ⟨fun _ _ => Nat.one_pos, fun _ => Nat.le_refl _, fun _ => rfl, fun _ => rfl⟩

theorem sample_named : Named sampleTarget sampleComponent := by
  refine ⟨?_, ?_, ?_⟩
  · decide
  · decide
  · decide

def sampleProject : Project String :=
  browseComponent sampleTarget sampleDisk.fs.files sampleComponent

/-- The source is modified and compiled, but then the library fails. -/
def archiveFailed : List (Event String) :=
  [.toolRun buildAll, .modify "a.c" (.ok ([], [])),
    .toolRun [.tool, .tool, .tool, .finish 0, .fail 1]]

/-- The date that the source had when the member of the library was compiled. -/
def memberDate (content : Option (Content String)) : Option Nat :=
  match content with
  | some (.archive [(_, some (.object _ modified))]) => some (modified "a.c")
  | _ => none

end Codinalte.Build.Maker
