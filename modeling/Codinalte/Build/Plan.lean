import Codinalte.Build.ToolRuns

/-! The order in which the files of a project are written, and that each is written once where the
names of the sources do not clash. -/

namespace Codinalte.Build.Maker
open Codinalte.Machine
variable {F : Type}

theorem mem_linked {files : List Path} {f : Path} : f ∈ linked files ↔ f ∈ files := by
  have hfold : ∀ (more found : List Path),
      f ∈ more.foldl (fun found file => if file ∈ found then found else found ++ [file]) found ↔
        f ∈ found ∨ f ∈ more := by
    intro more
    induction more with
    | nil => exact fun found => (or_iff_left (fun h => nomatch h)).symm
    | cons file more ih =>
      intro found
      rw [List.foldl_cons, ih, List.mem_cons, ← or_assoc]
      refine or_congr_left ?_
      split
      · next hin =>
        refine (or_iff_left_of_imp ?_).symm
        rintro rfl
        exact hin
      · rw [List.mem_append, List.mem_singleton]
  exact (hfold files []).trans (or_iff_right (fun h => nomatch h))

theorem Library.mem_files {library : Library F} {f : Path} :
    f ∈ library.files ↔ ∃ c ∈ library.compilations, c.obj = f := mem_linked.trans List.mem_map

section Order
variable {project : Project F} {top : List Path} {rest : List (Item F)}

theorem outs_append (a b : List (Item F)) : outs (a ++ b) = outs a ++ outs b :=
  List.filterMap_append

theorem deps_append (a b : List (Item F)) : deps (a ++ b) = deps a ++ deps b :=
  List.filterMap_append

theorem outs_compile (inTop : Bool) (cs : List (Compilation F)) :
    outs (cs.map (.compile inTop)) = cs.map Compilation.obj := by
  unfold outs
  rw [List.filterMap_map]
  have hout : (Item.out ∘ Item.compile inTop : Compilation F → Option Path) =
      some ∘ Compilation.obj := rfl
  rw [hout, List.filterMap_eq_map]

theorem deps_compile (inTop : Bool) (cs : List (Compilation F)) :
    deps (cs.map (.compile inTop)) = cs.filterMap Compilation.dep := by
  unfold deps
  rw [List.filterMap_map]
  rfl

theorem nextFiles_compile (cs : List (Compilation F)) (out : Path) (files : List Path) :
    nextFiles (cs.map (.compile false) ++ .library out files :: rest) = files := by
  induction cs with
  | nil => rfl
  | cons c cs ih => exact ih

/-- The items of the sources of a library, which are followed by the library. -/
theorem ordered_compile {cs : List (Compilation F)} {out : Path} {files : List Path}
    (hfiles : ∀ c ∈ cs, c.obj ∈ files ∧ c.obj ∉ top)
    (houts : (outs (cs.map (.compile false) ++ .library out files :: rest)).Nodup)
    (hdeps : (deps (cs.map (.compile false) ++ .library out files :: rest)).Nodup)
    (hrest : Ordered top (.library out files :: rest)) :
    Ordered top (cs.map (.compile false) ++ .library out files :: rest) := by
  induction cs with
  | nil => exact hrest
  | cons c cs ih =>
    have houts' : (c.obj :: outs (cs.map (.compile false) ++ .library out files :: rest)).Nodup :=
      houts
    obtain ⟨hout, houtsrest⟩ := List.nodup_cons.mp houts'
    have hdepsrest : (deps (cs.map (.compile false) ++ .library out files :: rest)).Nodup ∧
        ∀ dep, c.dep = some dep →
          dep ∉ deps (cs.map (.compile false) ++ .library out files :: rest) := by
      have hsplit :
          deps (.compile false c :: (cs.map (.compile false) ++ .library out files :: rest)) =
            c.dep.toList ++ deps (cs.map (.compile false) ++ .library out files :: rest) := by
        have hdep : (Item.compile false c).dep = c.dep := rfl
        unfold deps
        rw [List.filterMap_cons, hdep]
        cases c.dep <;> rfl
      have hnodup := hsplit ▸ hdeps
      obtain ⟨-, hnodup', hdisjoint⟩ := List.nodup_append.mp hnodup
      refine ⟨hnodup', fun dep hdep hmem => hdisjoint dep ?_ dep hmem rfl⟩
      rw [hdep]
      exact List.mem_singleton_self _
    have hnext : c.obj ∈ nextFiles (cs.map (.compile false) ++ .library out files :: rest) := by
      rw [nextFiles_compile]
      exact (hfiles c List.mem_cons_self).1
    exact ⟨hout, hnext, (hfiles c List.mem_cons_self).2, hdepsrest.2,
      ih (fun c' hc' => hfiles c' (List.mem_cons_of_mem _ hc')) houtsrest hdepsrest.1⟩

theorem Library.items_append (library : Library F) (rest : List (Item F)) :
    library.items ++ rest = library.compilations.map (.compile false) ++
      .library library.outlibfile library.files :: rest := by
  unfold Library.items
  rw [List.append_assoc]
  rfl

theorem Library.ordered (library : Library F) (htop : ∀ c ∈ library.compilations, c.obj ∉ top)
    (houts : (outs (library.items ++ rest)).Nodup) (hdeps : (deps (library.items ++ rest)).Nodup)
    (hfiles : ∀ f, f ∈ libraryFiles rest → f ∈ outs rest) (hrest : Ordered top rest) :
    Ordered top (library.items ++ rest) := by
  rw [library.items_append] at houts hdeps ⊢
  refine ordered_compile (fun c hc => ⟨Library.mem_files.mpr ⟨c, hc, rfl⟩, htop c hc⟩) houts hdeps ?_
  rw [outs_append, outs_compile] at houts
  obtain ⟨-, hlater, hdisjoint⟩ := List.nodup_append.mp houts
  have hlater' : (library.outlibfile :: outs rest).Nodup := hlater
  have hnot := (List.nodup_cons.mp hlater').1
  have hobj : ∀ f ∈ library.files, f ≠ library.outlibfile ∧ f ∉ outs rest := by
    intro f hf
    obtain ⟨c, hc, rfl⟩ := Library.mem_files.mp hf
    have hc' : c.obj ∈ library.compilations.map Compilation.obj := List.mem_map.mpr ⟨c, hc, rfl⟩
    exact ⟨hdisjoint _ hc' _ List.mem_cons_self,
      fun hin => hdisjoint _ hc' _ (List.mem_cons_of_mem _ hin) rfl⟩
  exact ⟨hnot, fun hin => hnot (hfiles _ hin), fun hin => (hobj _ hin).1 rfl,
    fun f hf => ⟨(hobj f hf).2, fun hin => (hobj f hf).2 (hfiles f hin)⟩, hrest⟩

theorem libraryFiles_outs (libraries : List (Library F))
    (hrest : ∀ f, f ∈ libraryFiles rest → f ∈ outs rest) :
    ∀ f, f ∈ libraryFiles (libraries.flatMap Library.items ++ rest) →
      f ∈ outs (libraries.flatMap Library.items ++ rest) := by
  intro f hf
  obtain ⟨item, hitem, hmem⟩ := List.mem_flatMap.mp hf
  rw [outs_append, List.mem_append]
  rcases List.mem_append.mp hitem with hitem | hitem
  · left
    obtain ⟨library, hlibrary, hin⟩ := List.mem_flatMap.mp hitem
    rcases List.mem_append.mp hin with hin | hin
    · obtain ⟨c, -, rfl⟩ := List.mem_map.mp hin
      cases hmem
    · cases List.mem_singleton.mp hin
      obtain ⟨c, hc, rfl⟩ := Library.mem_files.mp hmem
      have hitem : .compile false c ∈ library.items :=
        List.mem_append_left _ (List.mem_map.mpr ⟨c, hc, rfl⟩)
      exact List.mem_filterMap.mpr ⟨.compile false c,
        List.mem_flatMap.mpr ⟨library, hlibrary, hitem⟩, rfl⟩
  · exact .inr (hrest f (List.mem_flatMap.mpr ⟨item, hitem, hmem⟩))

theorem ordered_libraries {libraries : List (Library F)}
    (htop : ∀ library ∈ libraries, ∀ c ∈ library.compilations, c.obj ∉ top)
    (houts : (outs (libraries.flatMap Library.items ++ rest)).Nodup)
    (hdeps : (deps (libraries.flatMap Library.items ++ rest)).Nodup)
    (hfiles : ∀ f, f ∈ libraryFiles rest → f ∈ outs rest) (hrest : Ordered top rest) :
    Ordered top (libraries.flatMap Library.items ++ rest) := by
  induction libraries with
  | nil => exact hrest
  | cons library libraries ih =>
    rw [List.flatMap_cons, List.append_assoc] at houts hdeps ⊢
    have houts' := houts
    have hdeps' := hdeps
    rw [outs_append] at houts'
    rw [deps_append] at hdeps'
    exact library.ordered (htop library List.mem_cons_self) houts hdeps
      (libraryFiles_outs libraries hfiles)
      (ih (fun l hl => htop l (List.mem_cons_of_mem _ hl)) (List.nodup_append.mp houts').2.1
        (List.nodup_append.mp hdeps').2.1)

end Order

section Project
variable {project : Project F}

/-- The items that follow those of the libraries. -/
def Project.lastItems (project : Project F) : List (Item F) :=
  project.header.toList.map (.compile true) ++
    [.compile true project.common, .link project.outelf project.files]

theorem Project.items_eq (project : Project F) :
    project.items = project.libraries.flatMap Library.items ++ project.lastItems :=
  List.append_assoc ..

/-- No file is written twice. -/
structure Once (project : Project F) : Prop where
  written : (outs project.items).Nodup
  dependencies : (deps project.items).Nodup

def Item.command : Item F → Option (Command F)
  | .compile _ c => some (.compile c.src c.obj)
  | .createDependenciesFile _ _ => none
  | .library out files => some (.archive out files)
  | .link out files => some (.archive out files)

theorem outs_eq (items : List (Item F)) :
    outs items = (items.filterMap Item.command).map Command.out := by
  unfold outs
  rw [List.map_filterMap]
  refine List.filterMap_congr fun item _ => ?_
  cases item <;> rfl

theorem Library.mem_items {library : Library F} {item : Item F} : item ∈ library.items ↔
    (∃ c ∈ library.compilations, .compile false c = item) ∨
      item = .library library.outlibfile library.files := by
  unfold Library.items
  rw [List.mem_append, List.mem_map, List.mem_singleton]

theorem Project.compile_item {c : Compilation F} (hc : c ∈ project.compilations) :
    ∃ inTop, .compile inTop c ∈ project.items := by
  unfold Project.items
  rcases List.mem_append.mp hc with hc | hc
  · rcases List.mem_append.mp hc with hc | hc
    · obtain ⟨library, hlibrary, hc⟩ := List.mem_flatMap.mp hc
      refine ⟨false, List.mem_append_left _ (List.mem_append_left _ (List.mem_flatMap.mpr
        ⟨library, hlibrary, Library.mem_items.mpr (.inl ⟨c, hc, rfl⟩)⟩))⟩
    · exact ⟨true, List.mem_append_left _ (List.mem_append_right _ (List.mem_map.mpr ⟨c, hc, rfl⟩))⟩
  · cases List.mem_singleton.mp hc
    exact ⟨true, List.mem_append_right _ List.mem_cons_self⟩

theorem Project.archive_item {a : Path × List Path} (ha : a ∈ project.archives) :
    ∃ item ∈ project.items, item.Gathers a := by
  unfold Project.items
  rcases List.mem_append.mp ha with ha | ha
  · obtain ⟨library, hlibrary, rfl⟩ := List.mem_map.mp ha
    exact ⟨_, List.mem_append_left _ (List.mem_append_left _ (List.mem_flatMap.mpr
      ⟨library, hlibrary, Library.mem_items.mpr (.inr rfl)⟩)), .inl rfl⟩
  · cases List.mem_singleton.mp ha
    exact ⟨_, List.mem_append_right _ (List.mem_cons_of_mem _ List.mem_cons_self), .inr rfl⟩

theorem Project.item_of {item : Item F} (h : item ∈ project.items) : item.Of project := by
  unfold Project.items at h
  rcases List.mem_append.mp h with h | h
  · rcases List.mem_append.mp h with h | h
    · obtain ⟨library, hlibrary, h⟩ := List.mem_flatMap.mp h
      rcases Library.mem_items.mp h with ⟨c, hc, rfl⟩ | rfl
      · exact List.mem_append_left _ (List.mem_append_left _ (List.mem_flatMap.mpr
          ⟨library, hlibrary, hc⟩))
      · exact List.mem_append_left _ (List.mem_map.mpr ⟨library, hlibrary, rfl⟩)
    · obtain ⟨c, hc, rfl⟩ := List.mem_map.mp h
      exact List.mem_append_left _ (List.mem_append_right _ hc)
  · rcases List.mem_cons.mp h with rfl | h
    · exact List.mem_append_right _ (List.mem_singleton_self _)
    · cases List.mem_singleton.mp h
      exact List.mem_append_right _ (List.mem_singleton_self _)

theorem Project.command_item {command : Command F} (h : command ∈ project.commands) :
    command ∈ project.items.filterMap Item.command := by
  rcases List.mem_append.mp h with h | h
  · obtain ⟨c, hc, rfl⟩ := List.mem_map.mp h
    obtain ⟨inTop, hitem⟩ := project.compile_item hc
    exact List.mem_filterMap.mpr ⟨_, hitem, rfl⟩
  · obtain ⟨a, ha, rfl⟩ := List.mem_map.mp h
    obtain ⟨item, hitem, rfl | rfl⟩ := project.archive_item ha
    · exact List.mem_filterMap.mpr ⟨_, hitem, rfl⟩
    · exact List.mem_filterMap.mpr ⟨_, hitem, rfl⟩

theorem Once.command (h : Once project) {a b : Command F} (ha : a ∈ project.commands)
    (hb : b ∈ project.commands) (hout : a.out = b.out) : a = b := by
  have hnodup := h.written
  rw [outs_eq] at hnodup
  exact List.inj_on_of_nodup_map hnodup (project.command_item ha) (project.command_item hb) hout

/-- A library is not one of the files that it is made of. -/
theorem Once.library (h : Once project) {l : Library F} (hl : l ∈ project.libraries) {f : Path}
    (hf : f ∈ l.files) {a : Path × List Path} (ha : a ∈ project.archives) : f ≠ a.1 := by
  rintro rfl
  obtain ⟨c, hc, hobj⟩ := Library.mem_files.mp hf
  have hc' : c ∈ project.compilations := List.mem_append_left _ (List.mem_append_left _
    (List.mem_flatMap.mpr ⟨l, hl, hc⟩))
  cases h.command (compile_mem hc') (archive_mem ha) hobj

theorem Project.library_archive {l : Library F} (hl : l ∈ project.libraries) :
    (l.outlibfile, l.files) ∈ project.archives :=
  List.mem_append_left _ (List.mem_map.mpr ⟨l, hl, rfl⟩)

theorem Project.elf_archive : (project.outelf, project.files) ∈ project.archives :=
  List.mem_append_right _ (List.mem_singleton_self _)

theorem Project.mem_files {f : Path} : f ∈ project.files ↔
    (∃ l ∈ project.libraries, l.outlibfile = f) ∨ (∃ c ∈ project.header, c.obj = f) ∨
      project.common.obj = f := by
  unfold Project.files
  rw [mem_linked, List.mem_append, List.mem_append, List.mem_map, List.mem_map, List.mem_singleton,
    or_assoc, eq_comm (a := f)]
  simp only [Option.mem_toList, Option.mem_def]

theorem Once.elf (h : Once project) : project.outelf ∉ project.files := by
  intro hmem
  rcases Project.mem_files.mp hmem with ⟨l, hl, hout⟩ | ⟨c, hc, hobj⟩ | hobj
  · have heq := h.command (archive_mem (project.library_archive hl))
      (archive_mem project.elf_archive) hout
    injection heq with hsame hfiles
    have hfiles' : l.files = project.files := hfiles
    have hself : l.outlibfile ∈ l.files := by
      have hin : project.outelf ∈ project.files := hmem
      rwa [← hout, ← hfiles'] at hin
    exact h.library hl hself (project.library_archive hl) rfl
  · have hc' : c ∈ project.compilations :=
      List.mem_append_left _ (List.mem_append_right _ (Option.mem_toList.mpr hc))
    cases h.command (compile_mem hc') (archive_mem project.elf_archive) hobj
  · have hc' : project.common ∈ project.compilations :=
      List.mem_append_right _ (List.mem_singleton_self _)
    cases h.command (compile_mem hc') (archive_mem project.elf_archive) hobj

theorem Once.distinct (h : Once project) : Distinct project := by
  refine ⟨fun a ha b hb => h.command ha hb, fun a ha => ?_⟩
  rcases List.mem_append.mp ha with hmem | hmem
  · obtain ⟨l, hl, rfl⟩ := List.mem_map.mp hmem
    exact fun hin => h.library hl hin ha rfl
  · cases List.mem_singleton.mp hmem
    exact h.elf

/-- An object of a library is not linked itself. -/
theorem Once.object (h : Once project) {l : Library F} (hl : l ∈ project.libraries)
    {c : Compilation F} (hc : c ∈ l.compilations) : c.obj ∉ project.files := by
  have hnodup := h.written
  rw [project.items_eq, outs_append] at hnodup
  obtain ⟨-, -, hdisjoint⟩ := List.nodup_append.mp hnodup
  have hfirst : c.obj ∈ outs (project.libraries.flatMap Library.items) :=
    List.mem_filterMap.mpr ⟨.compile false c, List.mem_flatMap.mpr
      ⟨l, hl, Library.mem_items.mpr (.inl ⟨c, hc, rfl⟩)⟩, rfl⟩
  have hlast : ∀ c' : Compilation F, .compile true c' ∈ project.lastItems → c'.obj ≠ c.obj :=
    fun c' hc' heq => hdisjoint _ hfirst _ (List.mem_filterMap.mpr ⟨_, hc', rfl⟩) heq.symm
  intro hmem
  rcases Project.mem_files.mp hmem with ⟨l', hl', hout⟩ | ⟨c', hc', hobj⟩ | hobj
  · exact h.library hl (Library.mem_files.mpr ⟨c, hc, rfl⟩) (project.library_archive hl') hout.symm
  · refine hlast c' (List.mem_append_left _ (List.mem_map.mpr ⟨c', ?_, rfl⟩)) hobj
    exact Option.mem_toList.mpr hc'
  · exact hlast _ (List.mem_append_right _ List.mem_cons_self) hobj

theorem Once.ordered (h : Once project) : Ordered project.files project.items := by
  have houts := h.written
  have hdeps := h.dependencies
  rw [project.items_eq] at houts hdeps ⊢
  refine ordered_libraries (fun l hl c hc => h.object hl hc) houts hdeps ?_ ?_
  · intro f hf
    obtain ⟨item, hitem, hmem⟩ := List.mem_flatMap.mp hf
    rcases List.mem_append.mp hitem with hitem | hitem
    · obtain ⟨c, -, rfl⟩ := List.mem_map.mp hitem
      cases hmem
    · rcases List.mem_cons.mp hitem with rfl | hitem
      · cases hmem
      · cases List.mem_singleton.mp hitem
        cases hmem
  · rw [outs_append] at houts
    rw [deps_append] at hdeps
    have houts' := (List.nodup_append.mp houts).2.1
    have hdeps' := (List.nodup_append.mp hdeps).2.1
    have hlink : Ordered project.files ([.link project.outelf project.files] : List (Item F)) :=
      ⟨List.not_mem_nil, List.not_mem_nil, h.elf, rfl, fun _ _ => List.not_mem_nil, trivial⟩
    have hcommon : Ordered project.files
        [.compile true project.common, .link project.outelf project.files] := by
      refine ⟨?_, List.not_mem_nil, fun _ _ => List.not_mem_nil, hlink⟩
      intro hmem
      have hsame := List.mem_singleton.mp hmem
      have hc : project.common ∈ project.compilations :=
        List.mem_append_right _ (List.mem_singleton_self _)
      cases h.command (compile_mem hc) (archive_mem project.elf_archive) hsame
    unfold Project.lastItems at houts' hdeps' ⊢
    cases hheader : project.header with
    | none => exact hcommon
    | some c =>
      rw [hheader] at houts' hdeps'
      have houts'' : (c.obj :: outs
          [.compile true project.common, .link project.outelf project.files]).Nodup := houts'
      refine ⟨(List.nodup_cons.mp houts'').1, List.not_mem_nil, fun dep hdep hmem => ?_, hcommon⟩
      have hsplit : deps [.compile true c, .compile true project.common,
          .link project.outelf project.files] =
          dep :: deps [.compile true project.common, .link project.outelf project.files] := by
        unfold deps
        exact List.filterMap_cons_some hdep
      have hdeps'' := hsplit ▸ (show (deps [.compile true c, .compile true project.common,
        .link project.outelf project.files]).Nodup from hdeps')
      exact (List.nodup_cons.mp hdeps'').1 hmem

end Project

section Names
variable {target : Target F} {component : Component F} {files : Finset F}

/-- The names under which the sources of a primitive are compiled. -/
def Target.names (target : Target F) (p : Astprimitive F) : List String :=
  (match target.style with
    | .C => [smallname p.fullyname ++ "-wrp"]
    | .CPP => []) ++ p.sources.map fun source => smallsource source.name

/-- No two sources of a component have the same name up to the last dot, nor that of a generated
source, and no two primitives have the same name where dots are replaced. -/
structure Named (target : Target F) (component : Component F) : Prop where
  sources : ∀ p ∈ travelComponent component [], (target.names p).Nodup
  generated : ∀ p ∈ travelComponent component [], p.fullyname = component.fullyname →
    smallname p.fullyname ++ "-nmf" ∉ target.names p ∧
      smallname p.fullyname ++ "-hdr" ∉ target.names p
  libraries : ((travelComponent component []).map fun p => "_".intercalate p.fullyname).Nodup

theorem append_cancel {a b c : String} (h : a ++ c = b ++ c) : a = b := by
  have hlist := congrArg String.toList h
  rw [String.toList_append, String.toList_append] at hlist
  exact String.toList_inj.mp (List.append_cancel_right hlist)

theorem append_cancel_left {a b c : String} (h : a ++ b = a ++ c) : b = c := by
  have hlist := congrArg String.toList h
  rw [String.toList_append, String.toList_append] at hlist
  exact String.toList_inj.mp (List.append_cancel_left hlist)

theorem objs_library (p : Astprimitive F) : (target.library p).compilations.map Compilation.obj =
    (target.names p).map fun name => .component p.fullyname (name ++ "." ++ target.OBJ) := by
  unfold Target.library Target.names Target.wrapper
  rw [List.map_append, List.map_append, List.map_map, List.map_map]
  cases target.style <;> rfl

theorem deps_library (p : Astprimitive F) :
    (target.library p).compilations.filterMap Compilation.dep =
      (target.names p).map fun name => .component p.fullyname (name ++ ".d") := by
  unfold Target.library Target.names Target.wrapper
  rw [List.filterMap_append, List.map_append, List.filterMap_map, List.map_map]
  have hdep : (Compilation.dep ∘ fun source : Astsource F =>
      target.compilation p.fullyname source.file (smallsource source.name)) =
      some ∘ ((fun name => Path.component p.fullyname (name ++ ".d")) ∘
        fun source : Astsource F => smallsource source.name) := rfl
  rw [hdep, List.filterMap_eq_map]
  cases target.style <;> rfl

theorem outs_library (l : Library F) :
    outs l.items = l.compilations.map Compilation.obj ++ [l.outlibfile] := by
  unfold Library.items
  rw [outs_append, outs_compile]
  rfl

theorem deps_items (l : Library F) :
    deps l.items = l.compilations.filterMap Compilation.dep := by
  unfold Library.items
  rw [deps_append, deps_compile]
  exact List.append_nil _

theorem outs_flatMap (ls : List (Library F)) :
    outs (ls.flatMap Library.items) = ls.flatMap fun l => outs l.items :=
  List.filterMap_flatMap

theorem deps_flatMap (ls : List (Library F)) :
    deps (ls.flatMap Library.items) = ls.flatMap fun l => deps l.items :=
  List.filterMap_flatMap

theorem Named.fullyname (h : Named target component) :
    (travelComponent component []).Pairwise fun p q => p.fullyname ≠ q.fullyname := by
  have hpairwise := List.pairwise_map.mp h.libraries
  refine hpairwise.imp fun hne heq => hne ?_
  rw [heq]

theorem mem_outs_library {p : Astprimitive F} {f : Path} (h : f ∈ outs (target.library p).items) :
    (∃ name ∈ target.names p, f = .component p.fullyname (name ++ "." ++ target.OBJ)) ∨
      f = .unique ("_".intercalate p.fullyname ++ "." ++ target.LIB) := by
  rw [outs_library, List.mem_append, objs_library] at h
  rcases h with h | h
  · obtain ⟨name, hname, rfl⟩ := List.mem_map.mp h
    exact .inl ⟨name, hname, rfl⟩
  · exact .inr (List.mem_singleton.mp h)

theorem mem_deps_library {p : Astprimitive F} {f : Path} (h : f ∈ deps (target.library p).items) :
    ∃ name ∈ target.names p, f = .component p.fullyname (name ++ ".d") := by
  rw [deps_items, deps_library] at h
  obtain ⟨name, hname, rfl⟩ := List.mem_map.mp h
  exact ⟨name, hname, rfl⟩

theorem Named.outs_libraries (h : Named target component) :
    (outs (((travelComponent component []).map target.library).flatMap Library.items)).Nodup := by
  rw [outs_flatMap, List.flatMap_map, List.nodup_flatMap]
  constructor
  · intro p hp
    rw [outs_library, objs_library]
    refine List.nodup_append.mpr ⟨(h.sources p hp).map ?_, List.nodup_singleton _, ?_⟩
    · intro a b hab
      injection hab with _ hname
      exact append_cancel (append_cancel hname)
    · intro f hf g hg
      obtain ⟨name, -, rfl⟩ := List.mem_map.mp hf
      cases List.mem_singleton.mp hg
      exact fun h => nomatch h
  · have hlibraries := List.pairwise_map.mp h.libraries
    refine (h.fullyname.and hlibraries).imp fun {p q} hne => ?_
    intro f hp hq
    rcases mem_outs_library hp with ⟨name, -, rfl⟩ | rfl
    · rcases mem_outs_library hq with ⟨name', -, heq⟩ | heq
      · injection heq with hfull _
        exact hne.1 hfull
      · cases heq
    · rcases mem_outs_library hq with ⟨name', -, heq⟩ | heq
      · cases heq
      · injection heq with hname
        exact hne.2 (append_cancel (append_cancel hname))

theorem Named.deps_libraries (h : Named target component) :
    (deps (((travelComponent component []).map target.library).flatMap Library.items)).Nodup := by
  rw [deps_flatMap, List.flatMap_map, List.nodup_flatMap]
  constructor
  · intro p hp
    rw [deps_items, deps_library]
    refine (h.sources p hp).map fun a b hab => ?_
    injection hab with _ hname
    exact append_cancel hname
  · refine h.fullyname.imp fun {p q} hne => ?_
    intro f hp hq
    obtain ⟨name, -, rfl⟩ := mem_deps_library hp
    obtain ⟨name', -, heq⟩ := mem_deps_library hq
    injection heq with hfull _
    exact hne hfull

theorem header_obj (fullyname : List String) : (target.headerCompilation fullyname).obj =
    .component fullyname (smallname fullyname ++ "-hdr" ++ "." ++ target.OBJ) := by
  have hdot : "-hdr." = "-hdr" ++ "." := by decide
  unfold Target.headerCompilation getComponentBinaryFile
  rw [hdot, ← String.append_assoc]

/-- A file of the common part or of the header description is not one of a library. -/
theorem Named.last (h : Named target component) {f : Path}
    (hf : f = (target.common component.fullyname).obj ∨
      f = (target.headerCompilation component.fullyname).obj) :
    f ∉ outs (((travelComponent component []).map target.library).flatMap Library.items) := by
  rw [outs_flatMap, List.flatMap_map]
  intro hmem
  obtain ⟨p, hp, hin⟩ := List.mem_flatMap.mp hmem
  rcases hf with rfl | rfl
  · rcases mem_outs_library hin with ⟨name, hname, heq⟩ | heq
    · injection heq with hfull hlast
      have hsame := append_cancel (append_cancel hlast)
      exact (h.generated p hp hfull.symm).1 (hfull ▸ hsame ▸ hname)
    · cases heq
  · rw [header_obj] at hin
    rcases mem_outs_library hin with ⟨name, hname, heq⟩ | heq
    · injection heq with hfull hlast
      have hsame := append_cancel (append_cancel hlast)
      exact (h.generated p hp hfull.symm).2 (hfull ▸ hsame ▸ hname)
    · cases heq

theorem Named.once [DecidableEq F] (h : Named target component) (files : Finset F) :
    Once (browseComponent target files component) := by
  have hcommon : (target.headerCompilation component.fullyname).obj ≠
      (target.common component.fullyname).obj := by
    rw [header_obj]
    intro heq
    injection heq with _ hname
    exact absurd (append_cancel_left (append_cancel (append_cancel hname))) (by decide)
  have hlast : ∀ f ∈ outs (browseComponent target files component).lastItems,
      f = (target.common component.fullyname).obj ∨
        f = (target.headerCompilation component.fullyname).obj ∨
          f = .final component.fullyname target.elfExtension := by
    intro f hf
    unfold Project.lastItems at hf
    rw [outs_append, outs_compile] at hf
    rcases List.mem_append.mp hf with hf | hf
    · obtain ⟨c, hc, rfl⟩ := List.mem_map.mp hf
      cases (Option.ite_none_right_eq_some.mp (Option.mem_toList.mp hc)).2
      exact .inr (.inl rfl)
    · rcases List.mem_cons.mp hf with rfl | hf
      · exact .inl rfl
      · exact .inr (.inr (List.mem_singleton.mp hf))
  constructor
  · rw [Project.items_eq, outs_append]
    refine List.nodup_append.mpr ⟨h.outs_libraries, ?_, ?_⟩
    · have htail : (outs [.compile true (target.common component.fullyname),
          .link (getComponentFinalExt component.fullyname target.elfExtension)
            (browseComponent target files component).files]).Nodup :=
        List.nodup_cons.mpr ⟨fun hmem => (nomatch List.mem_singleton.mp hmem),
          List.nodup_singleton _⟩
      unfold Project.lastItems
      rw [outs_append, outs_compile]
      refine List.nodup_append.mpr ⟨?_, htail, ?_⟩
      · cases (browseComponent target files component).header with
        | none => exact List.nodup_nil
        | some c => exact List.nodup_singleton _
      · rintro f hf g hg rfl
        obtain ⟨c, hc, rfl⟩ := List.mem_map.mp hf
        cases (Option.ite_none_right_eq_some.mp (Option.mem_toList.mp hc)).2
        rcases List.mem_cons.mp hg with heq | hg
        · exact hcommon heq
        · cases List.mem_singleton.mp hg
    · rintro f hf g hg rfl
      rcases hlast f hg with heq | heq | heq
      · exact h.last (.inl heq) hf
      · exact h.last (.inr heq) hf
      · rw [heq] at hf
        have hin : .final component.fullyname target.elfExtension ∈
            outs (((travelComponent component []).map target.library).flatMap Library.items) := hf
        rw [outs_flatMap, List.flatMap_map] at hin
        obtain ⟨p, -, hmem⟩ := List.mem_flatMap.mp hin
        rcases mem_outs_library hmem with ⟨_, -, heq⟩ | heq
        · cases heq
        · cases heq
  · have hdeps : deps (browseComponent target files component).lastItems =
        [.component component.fullyname (smallname component.fullyname ++ "-nmf" ++ ".d")] := by
      unfold Project.lastItems
      rw [deps_append, deps_compile]
      cases hheader : (browseComponent target files component).header with
      | none => rfl
      | some c =>
        cases (Option.ite_none_right_eq_some.mp hheader).2
        rfl
    rw [Project.items_eq, deps_append, hdeps]
    refine List.nodup_append.mpr ⟨h.deps_libraries, List.nodup_singleton _, ?_⟩
    rintro f hf g hg rfl
    rw [List.mem_singleton.mp hg] at hf
    have hin : .component component.fullyname (smallname component.fullyname ++ "-nmf" ++ ".d") ∈
        deps (((travelComponent component []).map target.library).flatMap Library.items) := hf
    rw [deps_flatMap, List.flatMap_map] at hin
    obtain ⟨p, hp, hmem⟩ := List.mem_flatMap.mp hin
    obtain ⟨name, hname, heq⟩ := mem_deps_library hmem
    injection heq with hfull hsame
    exact (h.generated p hp hfull.symm).1 (hfull ▸ append_cancel hsame ▸ hname)

end Names

end Codinalte.Build.Maker
