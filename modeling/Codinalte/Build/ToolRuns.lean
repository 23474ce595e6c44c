import Codinalte.Build.Products

/-! One run of the tool, for any order in which its commands finish: which commands it has started,
and what they have produced. -/

namespace Codinalte.Build.Maker
open Codinalte.Machine
variable {F : Type}

def Item.out : Item F → Option Path
  | .compile _ c => some c.obj
  | .createDependenciesFile _ _ => none
  | .library out _ => some out
  | .link out _ => some out

/-- What may still be written. -/
def outs (items : List (Item F)) : List Path := items.filterMap Item.out

def Item.dep : Item F → Option Path
  | .compile _ c => c.dep
  | _ => none

def deps (items : List (Item F)) : List Path := items.filterMap Item.dep

def Item.libraryFiles : Item F → List Path
  | .library _ files => files
  | _ => []

/-- The files of all libraries that are still to come. -/
def libraryFiles (items : List (Item F)) : List Path := items.flatMap Item.libraryFiles

/-- The files of the next library. -/
def nextFiles : List (Item F) → List Path
  | [] => []
  | .library _ files :: _ => files
  | .compile _ _ :: rest => nextFiles rest
  | .createDependenciesFile _ _ :: rest => nextFiles rest
  | .link _ _ :: rest => nextFiles rest

/-- Every file is written once, and before it is archived or linked. -/
def Ordered (top : List Path) : List (Item F) → Prop
  | [] => True
  | .compile true c :: rest =>
    c.obj ∉ outs rest ∧ c.obj ∉ libraryFiles rest ∧ (∀ dep, c.dep = some dep → dep ∉ deps rest) ∧
      Ordered top rest
  | .compile false c :: rest =>
    c.obj ∉ outs rest ∧ c.obj ∈ nextFiles rest ∧ c.obj ∉ top ∧
      (∀ dep, c.dep = some dep → dep ∉ deps rest) ∧ Ordered top rest
  | .createDependenciesFile _ dep :: rest => dep ∉ deps rest ∧ Ordered top rest
  | .library out files :: rest =>
    out ∉ outs rest ∧ out ∉ libraryFiles rest ∧ out ∉ files ∧
      (∀ f ∈ files, f ∉ outs rest ∧ f ∉ libraryFiles rest) ∧ Ordered top rest
  | .link out files :: rest =>
    out ∉ outs rest ∧ out ∉ libraryFiles rest ∧ out ∉ files ∧ files = top ∧
      (∀ f ∈ files, f ∉ outs rest) ∧ Ordered top rest

/-- The commands with the numbers of those before them. -/
def Run.started (s : Run F) : List (Command F × List Nat) :=
  s.tasks.map fun task => (task.command, task.predecessors)

/-- What is known of the commands that a run has started and of those still to come. -/
structure Books (top : List Path) (items : List (Item F)) (predecessors topTasks : List Nat)
    (started : List (Command F × List Nat)) : Prop where
  ordered : Ordered top items
  fresh : ∀ x ∈ started, x.1.out ∉ outs items
  next : ∀ t ∈ predecessors, ∃ x, started[t]? = some x ∧ x.1.out ∈ nextFiles items
  library : ∀ t x, started[t]? = some x → x.1.out ∈ libraryFiles items → t ∈ predecessors
  top : ∀ t x, started[t]? = some x → x.1.out ∈ top → t ∈ topTasks
  archive : ∀ out files before, (Command.archive out files, before) ∈ started →
    (∀ f ∈ files, f ∉ outs items) ∧
      ∀ t x, started[t]? = some x → x.1.out ∈ files → t ∈ before

section Books
variable {top : List Path} {items rest : List (Item F)} {predecessors topTasks : List Nat}
  {started : List (Command F × List Nat)}

theorem get_snoc {α : Type} {l : List α} {a b : α} {t : Nat} (h : (l ++ [a])[t]? = some b) :
    l[t]? = some b ∨ t = l.length ∧ a = b := by
  rcases Nat.lt_trichotomy t l.length with hlt | heq | hgt
  · rw [List.getElem?_append_left hlt] at h
    exact .inl h
  · subst heq
    rw [List.getElem?_append_right (Nat.le_refl _), Nat.sub_self] at h
    exact .inr ⟨rfl, Option.some_injective _ h⟩
  · rw [List.getElem?_eq_none] at h
    · cases h
    · rw [List.length_append, List.length_singleton]
      exact hgt

/-- An item that starts nothing. -/
theorem Books.skip (h : Books top items predecessors topTasks started) {preds : List Nat}
    (hordered : Ordered top rest) (houts : ∀ f, f ∈ outs rest → f ∈ outs items)
    (hnext : ∀ t ∈ preds, t ∈ predecessors ∧ ∀ f, f ∈ nextFiles items → f ∈ nextFiles rest)
    (hlibrary : ∀ t x, started[t]? = some x → x.1.out ∈ libraryFiles rest → t ∈ preds) :
    Books top rest preds topTasks started where
  ordered := hordered
  fresh := fun x hx hout => h.fresh x hx (houts _ hout)
  next := by
    intro t ht
    obtain ⟨hpred, hfiles⟩ := hnext t ht
    obtain ⟨x, hx, hmem⟩ := h.next t hpred
    exact ⟨x, hx, hfiles _ hmem⟩
  library := hlibrary
  top := h.top
  archive := by
    intro out files before hmem
    obtain ⟨hfiles, hbefore⟩ := h.archive out files before hmem
    exact ⟨fun f hf hout => hfiles f hf (houts f hout), hbefore⟩

/-- A command is started. -/
theorem Books.start (h : Books top items predecessors topTasks started) {preds tops : List Nat}
    {command : Command F} {before : List Nat} (hordered : Ordered top rest)
    (houts : ∀ f, f ∈ outs rest → f ∈ outs items) (hitem : command.out ∈ outs items)
    (hout : command.out ∉ outs rest)
    (hnext : ∀ t ∈ preds, (t ∈ predecessors ∧ ∀ f, f ∈ nextFiles items → f ∈ nextFiles rest) ∨
      t = started.length ∧ command.out ∈ nextFiles rest)
    (hlibrary : ∀ t x, started[t]? = some x → x.1.out ∈ libraryFiles rest → t ∈ preds)
    (hlibrary' : command.out ∈ libraryFiles rest → started.length ∈ preds)
    (htop : ∀ t ∈ topTasks, t ∈ tops) (htop' : command.out ∈ top → started.length ∈ tops)
    (harchive : ∀ out files, command = .archive out files → out ∉ files ∧
      (∀ f ∈ files, f ∉ outs rest) ∧ ∀ t x, started[t]? = some x → x.1.out ∈ files → t ∈ before) :
    Books top rest preds tops (started ++ [(command, before)]) where
  ordered := hordered
  fresh := by
    intro x hx hmem
    rcases List.mem_append.mp hx with hx | hx
    · exact h.fresh x hx (houts _ hmem)
    · cases List.mem_singleton.mp hx
      exact hout hmem
  next := by
    intro t ht
    rcases hnext t ht with ⟨hpred, hfiles⟩ | ⟨rfl, hfile⟩
    · obtain ⟨x, hx, hmem⟩ := h.next t hpred
      obtain ⟨hlt, -⟩ := List.getElem?_eq_some_iff.mp hx
      exact ⟨x, (List.getElem?_append_left hlt).trans hx, hfiles _ hmem⟩
    · refine ⟨(command, before), ?_, hfile⟩
      rw [List.getElem?_append_right (Nat.le_refl _), Nat.sub_self]
      rfl
  library := by
    intro t x hx hmem
    rcases get_snoc hx with hold | ⟨rfl, rfl⟩
    · exact hlibrary t x hold hmem
    · exact hlibrary' hmem
  top := by
    intro t x hx hmem
    rcases get_snoc hx with hold | ⟨rfl, rfl⟩
    · exact htop t (h.top t x hold hmem)
    · exact htop' hmem
  archive := by
    intro out files earlier hmem
    rcases List.mem_append.mp hmem with hmem | hmem
    · obtain ⟨hfiles, hearlier⟩ := h.archive out files earlier hmem
      refine ⟨fun f hf hrest => hfiles f hf (houts f hrest), fun t x hx hin => ?_⟩
      rcases get_snoc hx with hold | ⟨rfl, rfl⟩
      · exact hearlier t x hold hin
      · exact absurd hitem (hfiles _ hin)
    · cases List.mem_singleton.mp hmem
      obtain ⟨hself, hfiles, hbefore⟩ := harchive out files rfl
      refine ⟨hfiles, fun t x hx hin => ?_⟩
      rcases get_snoc hx with hold | ⟨rfl, rfl⟩
      · exact hbefore t x hold hin
      · exact absurd hin hself

/-- What may be written next is not written later. -/
theorem Ordered.out {top : List Path} {item : Item F} (h : Ordered top (item :: rest)) {f : Path}
    (hf : item.out = some f) : f ∉ outs rest := by
  cases item with
  | compile inTop c =>
    cases hf
    cases inTop with
    | true => exact h.1
    | false => exact h.1
  | createDependenciesFile src dep => cases hf
  | library out files =>
    cases hf
    exact h.1
  | link out files =>
    cases hf
    exact h.1

theorem Ordered.tail {top : List Path} {item : Item F} (h : Ordered top (item :: rest)) :
    Ordered top rest := by
  cases item with
  | compile inTop c =>
    cases inTop with
    | true => exact h.2.2.2
    | false => exact h.2.2.2.2
  | createDependenciesFile src dep => exact h.2
  | library out files => exact h.2.2.2.2
  | link out files => exact h.2.2.2.2.2

theorem mem_outs_cons {item : Item F} {f : Path} :
    f ∈ outs (item :: rest) ↔ item.out = some f ∨ f ∈ outs rest := by
  unfold outs
  rw [List.filterMap_cons]
  cases item.out with
  | none => exact (or_iff_right (fun h => nomatch h)).symm
  | some out => rw [List.mem_cons, Option.some.injEq, eq_comm]

theorem mem_libraryFiles_cons {item : Item F} {f : Path} :
    f ∈ libraryFiles (item :: rest) ↔ f ∈ item.libraryFiles ∨ f ∈ libraryFiles rest := by
  unfold libraryFiles
  rw [List.flatMap_cons, List.mem_append]

section Dependencies
variable (c : Compilation F)

/-- Where a source is compiled, its dependency file is written next. -/
def dependencyItems : List (Item F) := c.dep.toList.map (.createDependenciesFile c.src)

theorem outs_dependencyItems : outs (dependencyItems c ++ rest) = outs rest := by
  unfold dependencyItems
  cases c.dep <;> rfl

theorem libraryFiles_dependencyItems :
    libraryFiles (dependencyItems c ++ rest) = libraryFiles rest := by
  unfold dependencyItems
  cases c.dep <;> rfl

theorem nextFiles_dependencyItems : nextFiles (dependencyItems c ++ rest) = nextFiles rest := by
  unfold dependencyItems
  cases c.dep <;> rfl

theorem ordered_dependencyItems {c : Compilation F} (h : Ordered top rest)
    (hdep : ∀ dep, c.dep = some dep → dep ∉ deps rest) :
    Ordered top (dependencyItems c ++ rest) := by
  unfold dependencyItems
  cases hc : c.dep with
  | none => exact h
  | some dep => exact ⟨hdep dep hc, h⟩

end Dependencies

end Books

section Tool
variable {directories : Directories F} {top : List Path} {s s' : Run F} {project : Project F}
  {d : Disk F}

/-- The books of a run. -/
def Run.Kept (top : List Path) (s : Run F) : Prop :=
  Books top s.items s.predecessors s.top s.started

theorem started_start (s : Run F) (command : Command F) (predecessors : List Nat) :
    (s.start command predecessors).started = s.started ++ [(command, predecessors)] := by
  unfold Run.started Run.start
  rw [List.map_append]
  rfl

theorem length_started (s : Run F) : s.started.length = s.tasks.length := List.length_map _

/-- Each step of the thread of the tool keeps the books. -/
theorem Run.Kept.tool [DecidableEq F] (h : s.Kept top) (hstep : s.tool directories = some s') :
    s'.Kept top := by
  have hlength := length_started s
  unfold Run.Kept at h
  unfold Run.tool at hstep
  split at hstep
  · cases hstep
  · next inTop c rest hitems =>
    rw [hitems] at h
    have hordered := h.ordered
    split at hstep
    · cases hstep
      unfold Run.Kept
      have hstarted : ({ s.start (.compile c.src c.obj) [] with
          items := c.dep.toList.map (.createDependenciesFile c.src) ++ rest
          predecessors := if inTop then s.predecessors else s.predecessors ++ [s.tasks.length]
          top := if inTop then s.top ++ [s.tasks.length] else s.top } : Run F).started =
          s.started ++ [(.compile c.src c.obj, [])] := started_start s _ _
      rw [hstarted]
      have hitem : c.obj ∈ outs (.compile inTop c :: rest) := mem_outs_cons.mpr (.inl rfl)
      have houts : ∀ f, f ∈ outs (dependencyItems c ++ rest) →
          f ∈ outs (.compile inTop c :: rest) := by
        rw [outs_dependencyItems]
        exact fun f hf => mem_outs_cons.mpr (.inr hf)
      have hout : c.obj ∉ outs (dependencyItems c ++ rest) := by
        rw [outs_dependencyItems]
        exact hordered.out rfl
      have hlibrary : ∀ t x, s.started[t]? = some x →
          x.1.out ∈ libraryFiles (dependencyItems c ++ rest) → t ∈ s.predecessors := by
        rw [libraryFiles_dependencyItems]
        exact fun t x hx hmem => h.library t x hx (mem_libraryFiles_cons.mpr (.inr hmem))
      have hnextFiles : ∀ f, f ∈ nextFiles (.compile inTop c :: rest) →
          f ∈ nextFiles (dependencyItems c ++ rest) := by
        rw [nextFiles_dependencyItems]
        exact fun f hf => hf
      cases inTop with
      | true =>
        obtain ⟨-, hnotlibrary, hdep, hrest⟩ := hordered
        rw [← libraryFiles_dependencyItems c] at hnotlibrary
        refine h.start (ordered_dependencyItems hrest hdep) houts hitem hout
          (fun t ht => .inl ⟨ht, hnextFiles⟩) hlibrary (fun hmem => absurd hmem hnotlibrary)
          (fun t ht => List.mem_append_left _ ht) ?_ (fun _ _ h => nomatch h)
        rw [hlength]
        exact fun _ => List.mem_append_right _ (List.mem_singleton_self _)
      | false =>
        obtain ⟨-, hnext, hnottop, hdep, hrest⟩ := hordered
        rw [← nextFiles_dependencyItems c] at hnext
        refine h.start (ordered_dependencyItems hrest hdep) houts hitem hout ?_
          (fun t x hx hmem => List.mem_append_left _ (hlibrary t x hx hmem)) ?_ (fun t ht => ht)
          (fun hmem => absurd hmem hnottop) (fun _ _ h => nomatch h)
        · intro t ht
          rcases List.mem_append.mp ht with ht | ht
          · exact .inl ⟨ht, hnextFiles⟩
          · exact .inr ⟨(List.mem_singleton.mp ht).trans hlength.symm, hnext⟩
        · rw [hlength]
          exact fun _ => List.mem_append_right _ (List.mem_singleton_self _)
    · cases hstep
      exact h.skip hordered.tail (fun f hf => mem_outs_cons.mpr (.inr hf))
        (fun t ht => ⟨ht, fun f hf => hf⟩)
        fun t x hx hmem => h.library t x hx (mem_libraryFiles_cons.mpr (.inr hmem))
  · next src dep rest hitems =>
    rw [hitems] at h
    split at hstep
    · cases hstep
      unfold Run.Kept
      rw [hitems]
      exact h
    · cases hstep
      exact h.skip (Ordered.tail h.ordered) (fun f hf => mem_outs_cons.mpr (.inr hf))
        (fun t ht => ⟨ht, fun f hf => hf⟩)
        fun t x hx hmem => h.library t x hx (mem_libraryFiles_cons.mpr (.inr hmem))
  · next out files rest hitems =>
    rw [hitems] at h
    obtain ⟨hout, hnotlibrary, hself, hfiles, hrest⟩ := h.ordered
    -- the commands before this library write nothing that a later one archives
    have hlibrary : ∀ (t : Nat) (x : Command F × List Nat), s.started[t]? = some x →
        x.1.out ∉ libraryFiles rest := by
      intro t x hx hmem
      have ht := h.library t x hx (mem_libraryFiles_cons.mpr (.inr hmem))
      obtain ⟨x', hx', hnext⟩ := h.next t ht
      cases hx.symm.trans hx'
      exact (hfiles _ hnext).2 hmem
    split at hstep
    · cases hstep
      unfold Run.Kept
      have hstarted : ({ s.start (.archive out files) s.predecessors with
          items := rest
          predecessors := []
          top := s.top ++ [s.tasks.length] } : Run F).started =
          s.started ++ [(.archive out files, s.predecessors)] := started_start s _ _
      rw [hstarted]
      refine h.start hrest (fun f hf => mem_outs_cons.mpr (.inr hf)) (mem_outs_cons.mpr (.inl rfl))
        hout (List.forall_mem_nil _) (fun t x hx hmem => absurd hmem (hlibrary t x hx))
        (fun hmem => absurd hmem hnotlibrary) (fun t ht => List.mem_append_left _ ht) ?_ ?_
      · rw [hlength]
        exact fun _ => List.mem_append_right _ (List.mem_singleton_self _)
      · rintro out files ⟨⟩
        exact ⟨hself, fun f hf => (hfiles f hf).1,
          fun t x hx hmem => h.library t x hx (mem_libraryFiles_cons.mpr (.inl hmem))⟩
    · next hnone =>
      cases hstep
      have hpreds : s.predecessors = [] := by
        by_contra hne
        exact hnone (.inl hne)
      refine h.skip hrest (fun f hf => mem_outs_cons.mpr (.inr hf)) ?_
        fun t x hx hmem => absurd hmem (hlibrary t x hx)
      rw [hpreds]
      exact List.forall_mem_nil _
  · next out files rest hitems =>
    rw [hitems] at h
    obtain ⟨hout, hnotlibrary, hself, rfl, hfiles, hrest⟩ := h.ordered
    have hlibrary : ∀ (t : Nat) (x : Command F × List Nat), s.started[t]? = some x →
        x.1.out ∈ libraryFiles rest →
        t ∈ s.predecessors :=
      fun t x hx hmem => h.library t x hx (mem_libraryFiles_cons.mpr (.inr hmem))
    split at hstep
    · cases hstep
      unfold Run.Kept
      have hstarted : ({ s.start (.archive out files) s.top with items := rest } : Run F).started =
          s.started ++ [(.archive out files, s.top)] := started_start s _ _
      rw [hstarted]
      refine h.start hrest (fun f hf => mem_outs_cons.mpr (.inr hf)) (mem_outs_cons.mpr (.inl rfl))
        hout (fun t ht => .inl ⟨ht, fun f hf => hf⟩) hlibrary
        (fun hmem => absurd hmem hnotlibrary) (fun t ht => ht) (fun hmem => absurd hmem hself) ?_
      rintro out files ⟨⟩
      exact ⟨hself, hfiles, h.top⟩
    · cases hstep
      exact h.skip hrest (fun f hf => mem_outs_cons.mpr (.inr hf))
        (fun t ht => ⟨ht, fun f hf => hf⟩) hlibrary

/-- What the item is about belongs to the project. -/
def Item.Of (project : Project F) : Item F → Prop
  | .compile _ c => c ∈ project.compilations
  | .createDependenciesFile _ _ => True
  | .library out files => (out, files) ∈ project.archives
  | .link out files => (out, files) ∈ project.archives

def Item.Gathers (a : Path × List Path) (item : Item F) : Prop :=
  item = .library a.1 a.2 ∨ item = .link a.1 a.2

/-- Each file is written by one command, and none is archived into itself. -/
structure Distinct (project : Project F) : Prop where
  commands : ∀ a ∈ project.commands, ∀ b ∈ project.commands, a.out = b.out → a = b
  archives : ∀ a ∈ project.archives, a.1 ∉ a.2

/-- What a run has done since it began with `d`. -/
structure Results (project : Project F) (d : Disk F) (s : Run F) : Prop where
  modified : s.disk.modified = d.modified
  fs : s.disk.fs = d.fs
  sound : Sound project s.disk
  items : ∀ item ∈ s.items, item.Of project
  commands : ∀ x ∈ s.started, x.1 ∈ project.commands
  untouched : ∀ path, (∀ task ∈ s.tasks, task.finished = true → task.command.out ≠ path) →
    s.disk.product path = d.product path
  object : ∀ task ∈ s.tasks, task.finished = true → ∀ src obj, task.command = .compile src obj →
    s.disk.content obj = some (.object src d.modified)
  archive : ∀ task ∈ s.tasks, task.finished = true → ∀ out files,
    task.command = .archive out files →
      s.disk.content out = some (.archive (files.map fun file => (file, s.disk.content file)))
  closed : ∀ task ∈ s.tasks, task.finished = true → ∀ p ∈ task.predecessors, s.finished p

/-- What a run has decided for each source and each archive. -/
structure Decided (project : Project F) (d : Disk F) (s : Run F) : Prop where
  dep : ∀ inTop c, .compile inTop c ∈ s.items → ∀ dep, c.dep = some dep →
    s.disk.dep dep = d.dep dep
  compiled : ∀ c ∈ project.compilations, (∃ inTop, .compile inTop c ∈ s.items) ∨
    (∃ before, (.compile c.src c.obj, before) ∈ s.started) ∨ d.needCompile c = false
  gathered : ∀ a ∈ project.archives, (∃ item ∈ s.items, item.Gathers a) ∨
    (∃ before, (.archive a.1 a.2, before) ∈ s.started) ∨
    (d.product a.1 ≠ none ∧ (∀ f ∈ a.2, f ∉ outs s.items) ∧ ∀ x ∈ s.started, x.1.out ∉ a.2)

theorem mem_started {task : Task F} (h : task ∈ s.tasks) :
    (task.command, task.predecessors) ∈ s.started := List.mem_map_of_mem h

theorem started_last {tasks : List (Task F)} {command : Command F} {before : List Nat}
    (h : s.tasks = tasks ++ [⟨command, before, false⟩]) : (command, before) ∈ s.started := by
  unfold Run.started
  rw [h, List.map_append]
  exact List.mem_append_right _ (List.mem_singleton_self _)

theorem exists_task {x : Command F × List Nat} (h : x ∈ s.started) :
    ∃ task ∈ s.tasks, (task.command, task.predecessors) = x := List.mem_map.mp h

theorem ready_some {t : Nat} {task : Task F} (h : s.ready t = some task) :
    s.tasks[t]? = some task ∧ task.finished = false ∧ ∀ p ∈ task.predecessors, s.finished p := by
  unfold Run.ready at h
  rw [Option.filter_eq_some_iff] at h
  exact ⟨h.1, of_decide_eq_true h.2⟩

/-- A command has finished. -/
def Run.done (s : Run F) (t : Nat) (task : Task F) : Run F :=
  { s with
    disk := s.disk.execute task.command
    tasks := s.tasks.set t { task with finished := true } }

section Finish
variable {t : Nat} {task : Task F}

theorem started_done (h : s.tasks[t]? = some task) : (s.done t task).started = s.started := by
  unfold Run.started Run.done
  rw [List.map_set]
  refine List.ext_getElem? fun i => ?_
  by_cases hi : i = t
  · subst hi
    obtain ⟨hlt, -⟩ := List.getElem?_eq_some_iff.mp h
    rw [List.getElem?_set_self (by rw [List.length_map]; exact hlt), List.getElem?_map, h]
    rfl
  · rw [List.getElem?_set_ne (Ne.symm hi)]

theorem mem_done {other : Task F} (h : other ∈ (s.done t task).tasks) :
    other ∈ s.tasks ∨ other = { task with finished := true } := List.mem_or_eq_of_mem_set h

theorem finished_done (h : s.tasks[t]? = some task) {p : Nat} (hp : s.finished p) :
    (s.done t task).finished p := by
  obtain ⟨other, hother, hfinished⟩ := hp
  by_cases hi : p = t
  · subst hi
    obtain ⟨hlt, -⟩ := List.getElem?_eq_some_iff.mp h
    exact ⟨_, List.getElem?_set_self hlt, rfl⟩
  · exact ⟨other, (List.getElem?_set_ne (Ne.symm hi)).trans hother, hfinished⟩

/-- A command of the run finishes, and what has been archived before is not written again. -/
theorem Results.finish (h : Results project d s) (hdistinct : Distinct project)
    (hkept : s.Kept top) (hready : s.ready t = some task) : Results project d (s.done t task) := by
  obtain ⟨htask, hunfinished, hbefore⟩ := ready_some hready
  have hmem : task ∈ s.tasks := List.mem_of_getElem? htask
  have hcommand : task.command ∈ project.commands := h.commands _ (mem_started hmem)
  obtain ⟨c, hproduct, hcompile, harchive⟩ := execute_out s.disk task.command
  obtain ⟨-, hmodified, hfs, -⟩ := execute_frame s.disk task.command
  have hsame : ∀ other ∈ s.tasks, other.command.out = task.command.out →
      other.command = task.command :=
    fun other hother heq => hdistinct.commands _ (h.commands _ (mem_started hother)) _ hcommand heq
  -- what an archive that has finished is made of has been written before
  have hleft : ∀ other ∈ s.tasks, other.finished = true → ∀ out files,
      other.command = .archive out files → task.command.out ∉ files := by
    intro other hother hfinished out files heq hin
    have hbooks := (hkept.archive out files other.predecessors (heq ▸ mem_started hother)).2
    have hin' : t ∈ other.predecessors :=
      hbooks t (task.command, task.predecessors) (by
        unfold Run.started
        rw [List.getElem?_map, htask]
        rfl) hin
    obtain ⟨task', htask', hfinished'⟩ := h.closed other hother hfinished t hin'
    cases htask.symm.trans htask'
    rw [hunfinished] at hfinished'
    cases hfinished'
  refine ⟨hmodified.trans h.modified, hfs.trans h.fs, ?_, h.items, ?_, ?_, ?_, ?_, ?_⟩
  · exact h.sound.execute fun other hother heq => hdistinct.commands _ hother _ hcommand heq
  · rw [started_done htask]
    exact h.commands
  · intro path hpath
    have hne : path ≠ task.command.out := by
      rintro rfl
      obtain ⟨hlt, -⟩ := List.getElem?_eq_some_iff.mp htask
      exact hpath _ (List.mem_set hlt _) rfl rfl
    refine (execute_of_ne s.disk hne).trans (h.untouched path fun other hother hfinished => ?_)
    obtain ⟨i, hi⟩ := List.mem_iff_getElem?.mp hother
    by_cases hit : i = t
    · subst hit
      cases htask.symm.trans hi
      rw [hunfinished] at hfinished
      cases hfinished
    · have hother' : (s.tasks.set t { task with finished := true })[i]? = some other :=
        (List.getElem?_set_ne (Ne.symm hit)).trans hi
      exact hpath other (List.mem_of_getElem? hother') hfinished
  · intro other hother hfinished src obj heq
    have hnew : ∀ src obj, task.command = .compile src obj →
        (s.disk.execute task.command).content obj = some (.object src d.modified) := by
      intro src obj heq
      have hout : task.command.out = obj := by rw [heq]; rfl
      rw [← hout, content_eq hproduct, hcompile src obj heq, h.modified]
    rcases mem_done hother with hother | rfl
    · by_cases hout : obj = task.command.out
      · refine hnew src obj ?_
        rw [← heq]
        refine (hsame other hother ?_).symm
        rw [heq, ← hout]
        rfl
      · exact (execute_content_of_ne s.disk hout).trans (h.object other hother hfinished src obj heq)
    · exact hnew src obj heq
  · intro other hother hfinished out files heq
    have hmembers : ∀ files : List Path, task.command.out ∉ files →
        (files.map fun file => (file, (s.disk.execute task.command).content file)) =
          files.map fun file => (file, s.disk.content file) := by
      intro files hnot
      refine List.map_congr_left fun file hfile => ?_
      rw [execute_content_of_ne]
      rintro rfl
      exact hnot hfile
    have hnew : ∀ out files, task.command = .archive out files →
        (s.disk.execute task.command).content out = some (.archive (files.map fun file =>
          (file, (s.disk.execute task.command).content file))) := by
      intro out files heq
      have hout : task.command.out = out := by rw [heq]; rfl
      have hself : task.command.out ∉ files := by
        rw [hout]
        rw [heq] at hcommand
        rcases List.mem_append.mp hcommand with hin | hin
        · obtain ⟨_, -, hfalse⟩ := List.mem_map.mp hin
          cases hfalse
        · obtain ⟨a, ha, hcase⟩ := List.mem_map.mp hin
          cases hcase
          exact hdistinct.archives a ha
      rw [hmembers files hself, ← hout, content_eq hproduct, harchive out files heq]
    rcases mem_done hother with hother | rfl
    · by_cases hout : out = task.command.out
      · refine hnew out files ?_
        rw [← heq]
        refine (hsame other hother ?_).symm
        rw [heq, ← hout]
        rfl
      · have hold := h.archive other hother hfinished out files heq
        have hnot := hleft other hother hfinished out files heq
        refine (execute_content_of_ne s.disk hout).trans (hold.trans ?_)
        exact congrArg (fun members => some (Content.archive members)) (hmembers files hnot).symm
    · exact hnew out files heq
  · intro other hother hfinished p hp
    rcases mem_done hother with hother | rfl
    · exact finished_done htask (h.closed other hother hfinished p hp)
    · exact finished_done htask (hbefore p hp)

theorem Decided.finish (h : Decided project d s) (htask : s.tasks[t]? = some task) :
    Decided project d (s.done t task) := by
  obtain ⟨-, -, -, hdep⟩ := execute_frame s.disk task.command
  refine ⟨?_, ?_, ?_⟩
  · intro inTop c hc dep hcdep
    exact (congrFun hdep dep).trans (h.dep inTop c hc dep hcdep)
  · rw [started_done htask]
    exact h.compiled
  · rw [started_done htask]
    exact h.gathered

end Finish

section Go
variable {item : Item F} {rest : List (Item F)}

theorem Sound.congr {d' : Disk F} (h : Sound project d) (hclock : d'.clock = d.clock)
    (hfs : d'.fs = d.fs) (hmodified : d'.modified = d.modified) (hproduct : d'.product = d.product) :
    Sound project d' := by
  have hdate : d'.date = d.date := by
    unfold Disk.date
    rw [hproduct]
  have hcontent : d'.content = d.content := by
    unfold Disk.content
    rw [hproduct]
  refine ⟨?_, ?_, ?_, ?_, ?_, ?_⟩
  · rw [hfs, hmodified]
    exact h.files
  · rw [hclock, hmodified]
    exact h.past
  · rw [hclock, hdate]
    exact h.dates
  · rw [hmodified, hproduct]
    exact h.object
  · rw [hdate, hcontent, hproduct]
    exact h.archive
  · rw [hcontent]
    exact h.made

/-- The thread of the tool goes on, and may have started a command. -/
theorem Results.go (h : Results project d s) (new : List (Task F))
    (hclock : s'.disk.clock = s.disk.clock) (hfs : s'.disk.fs = s.disk.fs)
    (hmodified : s'.disk.modified = s.disk.modified) (hproduct : s'.disk.product = s.disk.product)
    (htasks : s'.tasks = s.tasks ++ new)
    (hnew : ∀ task ∈ new, task.finished = false ∧ task.command ∈ project.commands)
    (hitems : ∀ item ∈ s'.items, item ∈ s.items ∨ item.Of project) : Results project d s' := by
  have hcontent : s'.disk.content = s.disk.content := by
    unfold Disk.content
    rw [hproduct]
  have hold : ∀ task ∈ s'.tasks, task.finished = true → task ∈ s.tasks := by
    rw [htasks]
    intro task hmem hfinished
    rcases List.mem_append.mp hmem with hmem | hmem
    · exact hmem
    · rw [(hnew task hmem).1] at hfinished
      cases hfinished
  refine ⟨hmodified.trans h.modified, hfs.trans h.fs, h.sound.congr hclock hfs hmodified hproduct,
    ?_, ?_, ?_, ?_, ?_, ?_⟩
  · intro item hitem
    rcases hitems item hitem with hitem | hitem
    · exact h.items item hitem
    · exact hitem
  · intro x hx
    obtain ⟨task, hmem, rfl⟩ := exists_task hx
    rw [htasks] at hmem
    rcases List.mem_append.mp hmem with hmem | hmem
    · exact h.commands _ (mem_started hmem)
    · exact (hnew task hmem).2
  · intro path hpath
    rw [hproduct]
    refine h.untouched path fun task hmem => hpath task ?_
    rw [htasks]
    exact List.mem_append_left _ hmem
  · rw [hcontent]
    exact fun task hmem hfinished => h.object task (hold task hmem hfinished) hfinished
  · rw [hcontent]
    exact fun task hmem hfinished => h.archive task (hold task hmem hfinished) hfinished
  · intro task hmem hfinished p hp
    obtain ⟨other, hother, hdone⟩ := h.closed task (hold task hmem hfinished) hfinished p hp
    obtain ⟨hlt, -⟩ := List.getElem?_eq_some_iff.mp hother
    refine ⟨other, ?_, hdone⟩
    rw [htasks]
    exact (List.getElem?_append_left hlt).trans hother

theorem compile_mem {c : Compilation F} (h : c ∈ project.compilations) :
    .compile c.src c.obj ∈ project.commands :=
  List.mem_append_left _ (List.mem_map.mpr ⟨c, h, rfl⟩)

theorem archive_mem {a : Path × List Path} (h : a ∈ project.archives) :
    .archive a.1 a.2 ∈ project.commands := List.mem_append_right _ (List.mem_map.mpr ⟨a, h, rfl⟩)

theorem Results.tool [DecidableEq F] (h : Results project d s)
    (hstep : s.tool directories = some s') : Results project d s' := by
  have hold : ∀ {item : Item F} {rest}, s.items = item :: rest →
      ∀ other ∈ rest, other ∈ s.items ∨ other.Of project := by
    intro item rest hitems other hother
    rw [hitems]
    exact .inl (List.mem_cons_of_mem _ hother)
  have hhead : ∀ {item : Item F} {rest}, s.items = item :: rest → item.Of project := by
    intro item rest hitems
    refine h.items item ?_
    rw [hitems]
    exact List.mem_cons_self
  unfold Run.tool at hstep
  split at hstep
  · cases hstep
  · next inTop c rest hitems =>
    split at hstep
    · cases hstep
      refine h.go [⟨.compile c.src c.obj, [], false⟩] rfl rfl rfl rfl rfl ?_ ?_
      · rintro task hmem
        cases List.mem_singleton.mp hmem
        exact ⟨rfl, compile_mem (hhead hitems)⟩
      · intro item hitem
        rcases List.mem_append.mp hitem with hitem | hitem
        · obtain ⟨dep, -, rfl⟩ := List.mem_map.mp hitem
          exact .inr trivial
        · exact hold hitems item hitem
    · cases hstep
      exact h.go [] rfl rfl rfl rfl (List.append_nil _).symm (List.forall_mem_nil _) (hold hitems)
  · next src dep rest hitems =>
    split at hstep
    · cases hstep
      exact h.go [] rfl rfl rfl rfl (List.append_nil _).symm (List.forall_mem_nil _) fun _ => .inl
    · cases hstep
      exact h.go [] rfl rfl rfl rfl (List.append_nil _).symm (List.forall_mem_nil _) (hold hitems)
  · next out files rest hitems =>
    split at hstep
    · cases hstep
      refine h.go [⟨.archive out files, s.predecessors, false⟩] rfl rfl rfl rfl rfl ?_ (hold hitems)
      rintro task hmem
      cases List.mem_singleton.mp hmem
      exact ⟨rfl, archive_mem (a := (out, files)) (hhead hitems)⟩
    · cases hstep
      exact h.go [] rfl rfl rfl rfl (List.append_nil _).symm (List.forall_mem_nil _) (hold hitems)
  · next out files rest hitems =>
    split at hstep
    · cases hstep
      refine h.go [⟨.archive out files, s.top, false⟩] rfl rfl rfl rfl rfl ?_ (hold hitems)
      rintro task hmem
      cases List.mem_singleton.mp hmem
      exact ⟨rfl, archive_mem (a := (out, files)) (hhead hitems)⟩
    · cases hstep
      exact h.go [] rfl rfl rfl rfl (List.append_nil _).symm (List.forall_mem_nil _) (hold hitems)

/-- A file that may still be written is as the run found it. -/
theorem Results.pending (h : Results project d s) (hkept : s.Kept top) {f : Path}
    (hf : f ∈ outs s.items) : s.disk.product f = d.product f := by
  refine h.untouched f fun task hmem _ heq => ?_
  exact hkept.fresh _ (mem_started hmem) (heq ▸ hf)

theorem Results.needCompile (h : Results project d s) (hdecided : Decided project d s)
    (hkept : s.Kept top) {inTop : Bool} {c : Compilation F} (hitem : .compile inTop c ∈ s.items) :
    s.disk.needCompile c = d.needCompile c := by
  have hobj : c.obj ∈ outs s.items := List.mem_filterMap.mpr ⟨_, hitem, rfl⟩
  have hdate : s.disk.date c.obj = d.date c.obj := by
    unfold Disk.date
    rw [h.pending hkept hobj]
  unfold Disk.needCompile
  cases hdep : c.dep with
  | none => simp only [hdate, h.modified]
  | some dep => simp only [hdate, h.modified, hdecided.dep inTop c hitem dep hdep]

/-- The thread of the tool goes on, and what it has decided is left. -/
theorem Decided.go (h : Decided project d s) (hitems : s.items = item :: rest)
    (new : List (Task F)) (htasks : s'.tasks = s.tasks ++ new)
    (hnew : ∀ task ∈ new, item.out = some task.command.out)
    (hrest : ∀ other ∈ rest, other ∈ s'.items)
    (hrest' : ∀ other ∈ s'.items, other ∈ rest ∨ other.out = none ∧ other.dep = none)
    (hdep : ∀ dep ∈ deps rest, s'.disk.dep dep = s.disk.dep dep)
    (hcompiled : ∀ inTop c, item = .compile inTop c →
      (∃ before, (.compile c.src c.obj, before) ∈ s'.started) ∨ d.needCompile c = false)
    (hgathered : ∀ a : Path × List Path, item.Gathers a →
      (∃ before, (.archive a.1 a.2, before) ∈ s'.started) ∨
      (d.product a.1 ≠ none ∧ (∀ f ∈ a.2, f ∉ outs rest) ∧ ∀ x ∈ s'.started, x.1.out ∉ a.2)) :
    Decided project d s' := by
  have houts : ∀ f, f ∈ outs s'.items → f ∈ outs rest := by
    intro f hf
    obtain ⟨other, hother, hout⟩ := List.mem_filterMap.mp hf
    rcases hrest' other hother with hmem | ⟨hnone, -⟩
    · exact List.mem_filterMap.mpr ⟨other, hmem, hout⟩
    · cases hnone.symm.trans hout
  have hstarted : ∀ x ∈ s.started, x ∈ s'.started := by
    unfold Run.started
    rw [htasks, List.map_append]
    exact fun x hx => List.mem_append_left _ hx
  have hstarted' : ∀ x ∈ s'.started, x ∈ s.started ∨ item.out = some x.1.out := by
    unfold Run.started
    rw [htasks, List.map_append]
    intro x hx
    rcases List.mem_append.mp hx with hx | hx
    · exact .inl hx
    · obtain ⟨task, hmem, rfl⟩ := List.mem_map.mp hx
      exact .inr (hnew task hmem)
  refine ⟨?_, ?_, ?_⟩
  · intro inTop c hc dep hcdep
    rcases hrest' _ hc with hmem | ⟨-, hnone⟩
    · rw [hdep dep (List.mem_filterMap.mpr ⟨_, hmem, hcdep⟩)]
      refine h.dep inTop c ?_ dep hcdep
      rw [hitems]
      exact List.mem_cons_of_mem _ hmem
    · cases hcdep.symm.trans hnone
  · intro c hc
    rcases h.compiled c hc with ⟨inTop, hmem⟩ | ⟨before, hmem⟩ | hneed
    · rw [hitems] at hmem
      rcases List.mem_cons.mp hmem with heq | hmem
      · exact .inr (hcompiled inTop c heq.symm)
      · exact .inl ⟨inTop, hrest _ hmem⟩
    · exact .inr (.inl ⟨before, hstarted _ hmem⟩)
    · exact .inr (.inr hneed)
  · intro a ha
    rcases h.gathered a ha with ⟨other, hmem, hgathers⟩ | ⟨before, hmem⟩ | ⟨hproduct, hfiles, hnone⟩
    · rw [hitems] at hmem
      rcases List.mem_cons.mp hmem with rfl | hmem
      · rcases hgathered a hgathers with hnow | ⟨hproduct, hfiles, hnone⟩
        · exact .inr (.inl hnow)
        · exact .inr (.inr ⟨hproduct, fun f hf hout => hfiles f hf (houts f hout), hnone⟩)
      · exact .inl ⟨other, hrest _ hmem, hgathers⟩
    · exact .inr (.inl ⟨before, hstarted _ hmem⟩)
    · refine .inr (.inr ⟨hproduct, fun f hf hout => ?_, fun x hx hin => ?_⟩)
      · refine hfiles f hf ?_
        rw [hitems]
        exact mem_outs_cons.mpr (.inr (houts f hout))
      · rcases hstarted' x hx with hx | hout
        · exact hnone x hx hin
        · refine hfiles _ hin ?_
          rw [hitems]
          exact mem_outs_cons.mpr (.inl hout)

/-- Each step of the thread of the tool decides what its item is about. -/
theorem Decided.tool [DecidableEq F] (h : Decided project d s) (hresults : Results project d s)
    (hkept : s.Kept top) (hstep : s.tool directories = some s') : Decided project d s' := by
  have hpending : ∀ {item : Item F} {rest f}, s.items = item :: rest → item.out = some f →
      s.disk.product f = d.product f := by
    intro item rest f hitems hout
    refine hresults.pending hkept ?_
    rw [hitems]
    exact mem_outs_cons.mpr (.inl hout)
  unfold Run.tool at hstep
  split at hstep
  · cases hstep
  · next inTop c rest hitems =>
    have hneed : s.disk.needCompile c = d.needCompile c := by
      have hitem : .compile inTop c ∈ s.items := by
        rw [hitems]
        exact List.mem_cons_self
      exact hresults.needCompile h hkept hitem
    split at hstep
    · cases hstep
      refine h.go hitems [⟨.compile c.src c.obj, [], false⟩] rfl ?_ ?_ ?_ (fun _ _ => rfl) ?_
        (fun _ h => nomatch h)
      · intro task hmem
        cases List.mem_singleton.mp hmem
        rfl
      · exact fun other hmem => List.mem_append_right _ hmem
      · intro other hmem
        rcases List.mem_append.mp hmem with hmem | hmem
        · obtain ⟨dep, -, rfl⟩ := List.mem_map.mp hmem
          exact .inr ⟨rfl, rfl⟩
        · exact .inl hmem
      · rintro inTop c ⟨⟩
        exact .inl ⟨[], started_last rfl⟩
    · next hnot =>
      cases hstep
      refine h.go hitems [] (List.append_nil _).symm (List.forall_mem_nil _) (fun _ hmem => hmem)
        (fun _ hmem => .inl hmem) (fun _ _ => rfl) ?_ (fun _ h => nomatch h)
      rintro inTop c ⟨⟩
      rw [← hneed]
      exact .inr (Bool.eq_false_of_not_eq_true hnot)
  · next src dep rest hitems =>
    split at hstep
    · cases hstep
      exact ⟨h.dep, h.compiled, h.gathered⟩
    · cases hstep
      have hordered : Ordered top (.createDependenciesFile src dep :: rest) := hitems ▸ hkept.ordered
      refine h.go hitems [] (List.append_nil _).symm (List.forall_mem_nil _) (fun _ hmem => hmem)
        (fun _ hmem => .inl hmem) ?_ (fun _ _ h => nomatch h) (fun _ h => nomatch h)
      intro other hmem
      refine Function.update_of_ne ?_ _ _
      rintro rfl
      exact hordered.1 hmem
  · next out files rest hitems =>
    have hordered : Ordered top (.library out files :: rest) := hitems ▸ hkept.ordered
    split at hstep
    · cases hstep
      refine h.go hitems [⟨.archive out files, s.predecessors, false⟩] rfl ?_ (fun _ hmem => hmem)
        (fun _ hmem => .inl hmem) (fun _ _ => rfl) (fun _ _ h => nomatch h) ?_
      · intro task hmem
        cases List.mem_singleton.mp hmem
        rfl
      · rintro a (⟨⟨⟩⟩ | heq)
        · exact .inl ⟨s.predecessors, started_last rfl⟩
        · cases heq
    · next hnone =>
      cases hstep
      obtain ⟨hpreds, hproduct⟩ := not_or.mp hnone
      refine h.go hitems [] (List.append_nil _).symm (List.forall_mem_nil _) (fun _ hmem => hmem)
        (fun _ hmem => .inl hmem) (fun _ _ => rfl) (fun _ _ h => nomatch h) ?_
      rintro a (⟨⟨⟩⟩ | heq)
      · refine .inr ⟨?_, fun f hf => (hordered.2.2.2.1 f hf).1, fun x hx hin => ?_⟩
        · rw [← hpending hitems rfl]
          exact hproduct
        · obtain ⟨t, ht⟩ := List.mem_iff_getElem?.mp hx
          have hmem : x.1.out ∈ libraryFiles s.items := by
            rw [hitems]
            exact mem_libraryFiles_cons.mpr (.inl hin)
          exact hpreds (List.ne_nil_of_mem (hkept.library t x ht hmem))
      · cases heq
  · next out files rest hitems =>
    have hordered : Ordered top (.link out files :: rest) := hitems ▸ hkept.ordered
    split at hstep
    · cases hstep
      refine h.go hitems [⟨.archive out files, s.top, false⟩] rfl ?_ (fun _ hmem => hmem)
        (fun _ hmem => .inl hmem) (fun _ _ => rfl) (fun _ _ h => nomatch h) ?_
      · intro task hmem
        cases List.mem_singleton.mp hmem
        rfl
      · rintro a (heq | ⟨⟨⟩⟩)
        · cases heq
        · exact .inl ⟨s.top, started_last rfl⟩
    · next hnone =>
      cases hstep
      obtain ⟨htop, hproduct⟩ := not_or.mp hnone
      refine h.go hitems [] (List.append_nil _).symm (List.forall_mem_nil _) (fun _ hmem => hmem)
        (fun _ hmem => .inl hmem) (fun _ _ => rfl) (fun _ _ h => nomatch h) ?_
      rintro a (heq | ⟨⟨⟩⟩)
      · cases heq
      · refine .inr ⟨?_, hordered.2.2.2.2.1, fun x hx hin => ?_⟩
        · rw [← hpending hitems rfl]
          exact hproduct
        · obtain ⟨t, ht⟩ := List.mem_iff_getElem?.mp hx
          exact htop (List.ne_nil_of_mem (hkept.top t x ht (hordered.2.2.2.1 ▸ hin)))

end Go

/-- What every step of a run keeps. -/
structure Inv (project : Project F) (d : Disk F) (s : Run F) : Prop where
  kept : s.Kept project.files
  results : Results project d s
  decided : Decided project d s

theorem Inv.step [DecidableEq F] (hdistinct : Distinct project) (s : Run F) (a : Action) (s' : Run F)
    (h : Inv project d s) (hstep : s.step directories a = some s') : Inv project d s' := by
  unfold Run.step at hstep
  split at hstep
  · cases hstep
  · cases a with
    | tool => exact ⟨h.kept.tool hstep, h.results.tool hstep, h.decided.tool h.results h.kept hstep⟩
    | finish t =>
      obtain ⟨task, hready, rfl⟩ := Option.map_eq_some_iff.mp hstep
      have htask := (ready_some hready).1
      refine ⟨?_, h.results.finish hdistinct h.kept hready, h.decided.finish htask⟩
      have hstarted : (s.done t task).started = s.started := started_done htask
      change Books project.files s.items s.predecessors s.top (s.done t task).started
      rw [hstarted]
      exact h.kept
    | fail t =>
      obtain ⟨task, -, rfl⟩ := Option.map_eq_some_iff.mp hstep
      exact ⟨h.kept, ⟨h.results.modified, h.results.fs, h.results.sound, h.results.items,
        h.results.commands, h.results.untouched, h.results.object, h.results.archive,
        h.results.closed⟩, ⟨h.decided.dep, h.decided.compiled, h.decided.gathered⟩⟩

end Tool

end Codinalte.Build.Maker
