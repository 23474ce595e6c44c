import Codinalte.Lib.Checks
import Mathlib.Data.Finset.Card
import Mathlib.Logic.Function.Basic
import Mathlib.Logic.Relation

/-! The files that a source includes, with the table in which they are kept from call to call. -/

namespace Codinalte.Build
open Codinalte.Checks
variable {F : Type} [DecidableEq F]

inductive ParseError where
  | SYNTAXIC_ERROR (message : String)
  | LEXICAL_ERROR (message : String)
  | ioException
deriving DecidableEq

inductive Failure where
  | unfinished
  | notParsed (e : ParseError)
deriving DecidableEq

/-- The files as a run finds them, under their canonical paths. A source is parsed into the includes
between brackets and those between quotes. -/
structure FileSystem (F : Type) where
  files : Finset F
  file : F → String → F
  parent : F → Option F
  parse : F → Except ParseError (List String × List String)

structure Directories (F : Type) where
  sharedir : List F
  srcdir : List F
  tmpsrcdir : F

/-- The files that are known to be included, for each file that has been parsed. -/
abbrev CFiles (F : Type) := F → Option (List F)

namespace CFiles

def empty : CFiles F := fun _ => none

def put (files : CFiles F) (src : F) : CFiles F := Function.update files src (some [])

def addAll (files : CFiles F) (src : F) (more : List F) : CFiles F :=
  Function.update files src (some ((files src).getD [] ∪ more))

end CFiles

def seachDependency (fs : FileSystem F) (parent : Option F) (include_ : String)
    (directories : List F) : Option F :=
  (directories ++ parent.toList).findSome? fun dir =>
    if fs.file dir include_ ∈ fs.files then some (fs.file dir include_) else none

/-- The files that a source includes directly, as they are found in the directories. -/
def includes (fs : FileSystem F) (directories : List F) (src : F) : Except Failure (List F) := do
  let (includeAbsolutes, includeRelatives) ← (fs.parse src).mapError .notParsed
  return includeAbsolutes.filterMap (fun include_ => seachDependency fs none include_ directories) ++
    includeRelatives.filterMap fun include_ =>
      seachDependency fs (fs.parent src) include_ directories

/-- One included file: it is added, and then what it includes. -/
def addInclude (compute : CFiles F → F → Except Failure (CFiles F × List F)) (src : F)
    (files : CFiles F) (incfile : F) : Except Failure (CFiles F) := do
  let (files, more) ← compute (files.addAll src [incfile]) incfile
  return files.addAll src more

def computeDependencies (fs : FileSystem F) (directories : List F) :
    Nat → CFiles F → F → Except Failure (CFiles F × List F)
  | 0, _, _ => .error .unfinished
  | fuel + 1, files, src =>
    match files src with
    | some known => .ok (files, known)
    | none => do
      let incfiles ← includes fs directories src
      let files ← incfiles.foldlM (addInclude (computeDependencies fs directories fuel) src)
        (files.put src)
      return (files, (files src).getD [])

def Directories.all (directories : Directories F) : List F :=
  directories.sharedir ++ directories.srcdir ++ [directories.tmpsrcdir]

def createDependencies (fs : FileSystem F) (files : CFiles F) (directories : Directories F)
    (src : F) : Except Failure (CFiles F × List F) :=
  computeDependencies fs directories.all (fs.files.card + 2) files src

/-- The lines of the dependency file. -/
def createDependenciesFile (src : F) (files : List F) : List F := src :: files

/-- The dates of the object file and the lines of the dependency file, where these are there. -/
def needRecompile (lastModified : F → Nat) (obj : Option Nat) (dep : Option (List F)) : Bool :=
  match obj, dep with
  | none, _ => true
  | some _, none => true
  | some date, some lines => lines.any fun include_ => date < lastModified include_

/-- The calls of one run, each in the directories of its context. -/
def createAll (fs : FileSystem F) (files : CFiles F) :
    List (Directories F × F) → Except Failure (CFiles F)
  | [] => .ok files
  | (directories, src) :: calls => do
    let (files, _) ← createDependencies fs files directories src
    createAll fs files calls

def Includes (fs : FileSystem F) (directories : List F) (a b : F) : Prop :=
  ∃ incfiles, includes fs directories a = .ok incfiles ∧ b ∈ incfiles

/-- A file reaches another one by includes. -/
def Reaches (fs : FileSystem F) (directories : List F) : F → F → Prop :=
  Relation.TransGen (Includes fs directories)

/-- The files that are not in the table and to which the search from a source comes. -/
inductive Searched (fs : FileSystem F) (directories : List F) (files : CFiles F) (src : F) :
    F → Prop where
  | src (h : files src = none) : Searched fs directories files src src
  | include_ {a b : F} (ha : Searched fs directories files src a)
      (hinc : Includes fs directories a b) (hb : files b = none) :
      Searched fs directories files src b

/-- A file is included by one that is not in the table. -/
def Found (fs : FileSystem F) (directories : List F) (files : CFiles F) (src f : F) : Prop :=
  ∃ a, Searched fs directories files src a ∧ Includes fs directories a f

/-- The files in the table at which the search from a source stops. -/
def Stops (fs : FileSystem F) (directories : List F) (files : CFiles F) (src g : F) : Prop :=
  files g ≠ none ∧ (g = src ∨ Found fs directories files src g)

/-- What is collected: the files that are included by those not in the table, and the entries of the
files at which the search stops. -/
def Collected (fs : FileSystem F) (directories : List F) (files : CFiles F) (src f : F) : Prop :=
  Found fs directories files src f ∨
    ∃ g known, Stops fs directories files src g ∧ files g = some known ∧ f ∈ known

section Search
variable {fs : FileSystem F} {directories : List F} {table files files' : CFiles F} {root src : F}
  {fuel : Nat} {known : List F}

/-- The table of a search beside the one it has begun with. -/
structure Grown (fs : FileSystem F) (directories : List F) (table : CFiles F) (root : F)
    (files : CFiles F) : Prop where
  base : ∀ f known, table f = some known → files f = some known
  searched : ∀ f, table f = none → files f ≠ none → Searched fs directories table root f
  collected : ∀ f known, table f = none → files f = some known →
    ∀ x ∈ known, Collected fs directories table root x

/-- What is done with the includes of a file, and what is known of it in the list. -/
def Done (table files : CFiles F) (known : List F) (b : F) : Prop :=
  files b ≠ none ∧ b ∈ known ∧ ∀ entry, table b = some entry → entry ⊆ known

/-- A part of a search. -/
structure Visits (fs : FileSystem F) (directories : List F) (table : CFiles F) (root : F)
    (files files' : CFiles F) (known : List F) : Prop where
  grown : Grown fs directories table root files'
  keep : ∀ f entry, files f = some entry → files' f = some entry
  collected : ∀ x ∈ known, Collected fs directories table root x
  done : ∀ a, files a = none → files' a ≠ none → ∀ b, Includes fs directories a b →
    Done table files' known b

theorem mem_addAll {f : F} {more : List F} :
    (files.addAll src more) f = if f = src then some ((files src).getD [] ∪ more) else files f := by
  unfold CFiles.addAll
  exact Function.update_apply ..

theorem addAll_ne_none {f : F} {more : List F} (h : files f ≠ none) :
    (files.addAll src more) f ≠ none := by
  rw [mem_addAll]
  split
  · exact fun h => nomatch h
  · exact h

omit [DecidableEq F] in
theorem Done.mono {b : F} {known' : List F} (h : Done table files known b)
    (hkeep : files b ≠ none → files' b ≠ none) (hsub : known ⊆ known') :
    Done table files' known' b :=
  ⟨hkeep h.1, hsub h.2.1, fun entry hentry => List.Subset.trans (h.2.2 entry hentry) hsub⟩

theorem Grown.addAll (h : Grown fs directories table root files) (hsrc : table src = none)
    (hsearched : Searched fs directories table root src) {more : List F}
    (hmore : ∀ x ∈ more, Collected fs directories table root x) :
    Grown fs directories table root (files.addAll src more) := by
  refine ⟨fun f known hknown => ?_, fun f hf hfiles => ?_, fun f known hf hknown x hx => ?_⟩
  · have hne : f ≠ src := fun heq => nomatch (heq ▸ hknown : table src = some known).symm.trans hsrc
    rw [mem_addAll, if_neg hne]
    exact h.base f known hknown
  · rw [mem_addAll] at hfiles
    split at hfiles
    · next heq => exact heq ▸ hsearched
    · exact h.searched f hf hfiles
  · rw [mem_addAll] at hknown
    split at hknown
    · cases hknown
      rcases List.mem_union_iff.mp hx with hx | hx
      · cases hsome : files src with
        | none =>
          rw [hsome] at hx
          cases hx
        | some entry =>
          rw [hsome] at hx
          exact h.collected src entry hsrc hsome x hx
      · exact hmore x hx
    · exact h.collected f known hf hknown x hx

/-- While the includes of a file are gone through. -/
def Filled (fs : FileSystem F) (directories : List F) (table : CFiles F) (root src : F)
    (files : CFiles F) (before : List F) (now : CFiles F) : Prop :=
  ∃ entry, now src = some entry ∧ Grown fs directories table root now ∧
    (∀ f entry, files f = some entry → now f = some entry) ∧
    (∀ b ∈ before, Done table now entry b) ∧
    ∀ a, a ≠ src → files a = none → now a ≠ none → ∀ b, Includes fs directories a b →
      Done table now entry b

/-- One more include has been gone through. -/
theorem Filled.step {before : List F} {now now' : CFiles F} {incfile : F}
    {compute : CFiles F → F → Except Failure (CFiles F × List F)}
    (h : Filled fs directories table root src files before now) (hsrc : table src = none)
    (hnone : files src = none) (hroot : Searched fs directories table root src)
    (hinc : Includes fs directories src incfile)
    (hcompute : ∀ {now now' known}, Grown fs directories table root now →
      (table incfile = none → Searched fs directories table root incfile) →
      (table incfile ≠ none → Stops fs directories table root incfile) →
      compute now incfile = .ok (now', known) →
        Visits fs directories table root now now' known ∧ now' incfile ≠ none ∧
          ∀ entry, table incfile = some entry → known = entry)
    (hrun : addInclude compute src now incfile = .ok now') :
    Filled fs directories table root src files (before ++ [incfile]) now' := by
  obtain ⟨entry, hentry, hgrown, hkeep, hbefore, hnew⟩ := h
  unfold addInclude at hrun
  obtain ⟨⟨visited, more⟩, hvisited, hrun⟩ := bind_ok.mp hrun
  cases hrun
  have hfound : Found fs directories table root incfile := ⟨src, hroot, hinc⟩
  have hone : ∀ x ∈ [incfile], Collected fs directories table root x := by
    intro x hx
    rw [List.mem_singleton.mp hx]
    exact .inl hfound
  obtain ⟨hvisits, hthere, hknown⟩ := hcompute (hgrown.addAll hsrc hroot hone)
    (fun htable => .include_ hroot hinc htable) (fun htable => ⟨htable, .inr hfound⟩) hvisited
  have hsome : visited src = some (entry ∪ [incfile]) := by
    refine hvisits.keep src _ ?_
    rw [mem_addAll, if_pos rfl, hentry]
    rfl
  have hlast : (visited.addAll src more) src = some (entry ∪ [incfile] ∪ more) := by
    rw [mem_addAll, if_pos rfl, hsome]
    rfl
  have hentrysub : entry ⊆ entry ∪ [incfile] ∪ more :=
    fun x hx => List.mem_union_iff.mpr (.inl (List.mem_union_iff.mpr (.inl hx)))
  have hmoresub : more ⊆ entry ∪ [incfile] ∪ more := fun x hx => List.mem_union_iff.mpr (.inr hx)
  have hnow : ∀ f, now f ≠ none → (visited.addAll src more) f ≠ none := by
    intro f hf
    have hadded : (now.addAll src [incfile]) f ≠ none := addAll_ne_none hf
    obtain ⟨entry', hentry'⟩ := Option.ne_none_iff_exists'.mp hadded
    exact addAll_ne_none (hvisits.keep f entry' hentry' ▸ (fun h => nomatch h))
  refine ⟨_, hlast, hvisits.grown.addAll hsrc hroot hvisits.collected, ?_, ?_, ?_⟩
  · intro f entry' hentry'
    have hne : f ≠ src := by
      rintro rfl
      exact nomatch hnone.symm.trans hentry'
    rw [mem_addAll, if_neg hne]
    refine hvisits.keep f entry' ?_
    rw [mem_addAll, if_neg hne]
    exact hkeep f entry' hentry'
  · intro b hb
    rcases List.mem_append.mp hb with hb | hb
    · exact (hbefore b hb).mono (hnow b) hentrysub
    · rw [List.mem_singleton.mp hb]
      refine ⟨addAll_ne_none hthere, List.mem_union_iff.mpr (.inl (List.mem_union_iff.mpr
        (.inr List.mem_cons_self))), fun entry' hentry' => ?_⟩
      exact hknown entry' hentry' ▸ hmoresub
  · intro a hne ha hthere' b hincludes
    by_cases hold : now a = none
    · have hbefore' : (now.addAll src [incfile]) a = none := by
        rw [mem_addAll, if_neg hne]
        exact hold
      have hafter : visited a ≠ none := by
        rw [mem_addAll, if_neg hne] at hthere'
        exact hthere'
      exact (hvisits.done a hbefore' hafter b hincludes).mono addAll_ne_none hmoresub
    · exact (hnew a hne ha hold b hincludes).mono (hnow b) hentrysub

/-- What a search does at a file: it stops there, or the file is put in the table with all that is
collected below it. -/
theorem computeDependencies_visits (hgrown : Grown fs directories table root files)
    (hsearched : table src = none → Searched fs directories table root src)
    (hstops : table src ≠ none → Stops fs directories table root src)
    (h : computeDependencies fs directories fuel files src = .ok (files', known)) :
    Visits fs directories table root files files' known ∧ files' src ≠ none ∧
      ∀ entry, table src = some entry → known = entry := by
  induction fuel generalizing files files' src known with
  | zero => cases h
  | succ fuel ih =>
    unfold computeDependencies at h
    split at h
    · next entry hentry =>
      cases h
      refine ⟨⟨hgrown, fun _ _ h => h, fun x hx => ?_, fun a hnone hsome => absurd hnone hsome⟩, ?_,
        fun entry' hentry' => ?_⟩
      · cases htable : table src with
        | none => exact hgrown.collected src _ htable hentry x hx
        | some entry' =>
          cases hentry.symm.trans (hgrown.base src entry' htable)
          exact .inr ⟨src, _, hstops (htable ▸ (fun h => nomatch h)), htable, hx⟩
      · rw [hentry]
        exact fun h => nomatch h
      · exact Option.some.inj (hentry.symm.trans (hgrown.base src entry' hentry'))
    · next hnone =>
      obtain ⟨incfiles, hincfiles, h⟩ := bind_ok.mp h
      obtain ⟨filled, hfilled, h⟩ := bind_ok.mp h
      cases h
      have hsrc : table src = none := by
        cases htable : table src with
        | none => rfl
        | some entry => exact nomatch hnone.symm.trans (hgrown.base src entry htable)
      have hroot := hsearched hsrc
      have hput : files.put src = files.addAll src [] := by
        unfold CFiles.put CFiles.addAll
        rw [hnone]
        rfl
      have hstart : Filled fs directories table root src files [] (files.put src) := by
        refine ⟨[], Function.update_self .., ?_, fun f entry hentry => ?_, (fun _ h => nomatch h),
          ?_⟩
        · rw [hput]
          exact hgrown.addAll hsrc hroot (fun _ h => nomatch h)
        · have hne : f ≠ src := by
            rintro rfl
            exact nomatch hnone.symm.trans hentry
          exact (Function.update_of_ne hne _ _).trans hentry
        · intro a hne ha hnow
          exact absurd ((Function.update_of_ne hne _ _).trans ha) hnow
      have hall : ∀ b ∈ incfiles, Includes fs directories src b := fun b hb => ⟨_, hincfiles, hb⟩
      -- the entry of the source grows with each include; all that is new has been done
      have hend : (∀ b ∈ incfiles, Includes fs directories src b) →
          Filled fs directories table root src files incfiles files' := by
        refine foldlM_ok (P := fun before now => (∀ b ∈ before, Includes fs directories src b) →
          Filled fs directories table root src files before now) ?_ (fun _ => hstart) hfilled
        intro before now incfile now' hbefore hinclude hincluded
        have hinc := hincluded incfile (List.mem_append_right _ List.mem_cons_self)
        refine (hbefore fun b hb => hincluded b (List.mem_append_left _ hb)).step hsrc hnone hroot hinc
          (fun hg hs ht hrun => ih hg hs ht hrun) hinclude
      obtain ⟨entry, hentry, hgrown', hkeep, hincluded, hnew⟩ := hend hall
      have hknown : (files' src).getD [] = entry := by rw [hentry]; rfl
      rw [hknown]
      refine ⟨⟨hgrown', hkeep, hgrown'.collected src entry hsrc hentry, fun a ha hnow b hinc => ?_⟩,
        hentry ▸ (fun h => nomatch h), fun entry' hentry' => nomatch hsrc.symm.trans hentry'⟩
      by_cases heq : a = src
      · subst heq
        obtain ⟨incfiles', hincfiles', hb⟩ := hinc
        cases hincfiles.symm.trans hincfiles'
        exact hincluded b hb
      · exact hnew a heq ha hnow b hinc

/-- A call of a source returns what is collected from the table as it is before the call. -/
theorem collected_iff (h : computeDependencies fs directories fuel files src = .ok (files', known))
    (f : F) : f ∈ known ↔ Collected fs directories files src f := by
  have hgrown : Grown fs directories files src files :=
    ⟨fun _ _ h => h, fun f hnone hsome => absurd hnone hsome,
      fun f entry hnone hsome => nomatch hnone.symm.trans hsome⟩
  obtain ⟨hvisits, hthere, hknown⟩ := computeDependencies_visits hgrown .src
    (fun hne => ⟨hne, .inl rfl⟩) h
  have hsearched : ∀ a, Searched fs directories files src a → files a = none ∧ files' a ≠ none := by
    intro a ha
    induction ha with
    | src hnone => exact ⟨hnone, hthere⟩
    | include_ _ hinc hb ih => exact ⟨hb, (hvisits.done _ ih.1 ih.2 _ hinc).1⟩
  refine ⟨hvisits.collected f, ?_⟩
  rintro (⟨a, ha, hinc⟩ | ⟨g, entry, ⟨-, hstops⟩, hentry, hf⟩)
  · exact (hvisits.done a (hsearched a ha).1 (hsearched a ha).2 f hinc).2.1
  · rcases hstops with rfl | ⟨a, ha, hinc⟩
    · exact hknown entry hentry ▸ hf
    · exact (hvisits.done a (hsearched a ha).1 (hsearched a ha).2 g hinc).2.2 entry hentry hf

end Search

section Ends
variable {fs : FileSystem F} {directories : List F} {files files' : CFiles F} {src : F}
  {fuel : Nat} {known : List F}

theorem put_ne_none {f : F} (h : files f ≠ none ∨ f = src) : files.put src f ≠ none := by
  by_cases heq : f = src
  · subst heq
    unfold CFiles.put
    rw [Function.update_self]
    exact fun h => nomatch h
  · unfold CFiles.put
    rw [Function.update_of_ne heq]
    exact h.resolve_right heq

theorem addInclude_keeps {compute : CFiles F → F → Except Failure (CFiles F × List F)} {incfile f : F}
    (hcompute : ∀ {files files' known}, compute files incfile = .ok (files', known) →
      files f ≠ none → files' f ≠ none)
    (h : addInclude compute src files incfile = .ok files') (hf : files f ≠ none) :
    files' f ≠ none := by
  unfold addInclude at h
  obtain ⟨⟨visited, more⟩, hvisited, h⟩ := bind_ok.mp h
  cases h
  exact addAll_ne_none (hcompute hvisited (addAll_ne_none hf))

theorem computeDependencies_keeps {f : F}
    (h : computeDependencies fs directories fuel files src = .ok (files', known))
    (hf : files f ≠ none) : files' f ≠ none := by
  induction fuel generalizing files files' src known with
  | zero => cases h
  | succ fuel ih =>
    unfold computeDependencies at h
    split at h
    · cases h
      exact hf
    · obtain ⟨incfiles, -, h⟩ := bind_ok.mp h
      obtain ⟨filled, hfilled, h⟩ := bind_ok.mp h
      cases h
      exact foldlM_keeps (P := fun now : CFiles F => now f ≠ none)
        (fun _ _ _ _ hnow hrun => addInclude_keeps (fun hrun hne => ih hrun hne) hrun hnow)
        (put_ne_none (.inl hf)) hfilled

/-- The files that have not been put in the table. -/
def left (fs : FileSystem F) (files : CFiles F) : Finset F := fs.files.filter fun f => files f = none

omit [DecidableEq F] in
theorem left_mono (h : ∀ f, files f ≠ none → files' f ≠ none) :
    (left fs files').card ≤ (left fs files).card := by
  refine Finset.card_le_card fun f hf => ?_
  obtain ⟨hmem, hnone⟩ := Finset.mem_filter.mp hf
  exact Finset.mem_filter.mpr ⟨hmem, by_contra fun hne => h f hne hnone⟩

theorem includes_files {incfiles : List F} (h : includes fs directories src = .ok incfiles) {b : F}
    (hb : b ∈ incfiles) : b ∈ fs.files := by
  have hfound : ∀ {parent : Option F} {include_ : String},
      seachDependency fs parent include_ directories = some b → b ∈ fs.files := by
    intro parent include_ h
    obtain ⟨dir, -, hdir⟩ := List.exists_of_findSome?_eq_some h
    split at hdir
    · next hfile => exact Option.some.inj hdir ▸ hfile
    · cases hdir
  unfold includes at h
  obtain ⟨⟨includeAbsolutes, includeRelatives⟩, -, h⟩ := bind_ok.mp h
  cases h
  rcases List.mem_append.mp hb with hb | hb
  · obtain ⟨include_, -, hseach⟩ := List.mem_filterMap.mp hb
    exact hfound hseach
  · obtain ⟨include_, -, hseach⟩ := List.mem_filterMap.mp hb
    exact hfound hseach

theorem includes_finished : includes fs directories src ≠ .error .unfinished := by
  unfold includes
  cases fs.parse src with
  | error e => exact fun h => nomatch h
  | ok parsed => exact fun h => nomatch h

/-- The search ends: each file is gone through once. -/
theorem computeDependencies_ends
    (h : (left fs files).card + (if src ∈ fs.files then 1 else 2) ≤ fuel) :
    computeDependencies fs directories fuel files src ≠ .error .unfinished := by
  induction fuel generalizing files src with
  | zero =>
    split at h <;> omega
  | succ fuel ih =>
    unfold computeDependencies
    split
    · exact fun h => nomatch h
    · next hnone =>
      refine bind_ne_error includes_finished fun incfiles hincfiles => ?_
      have hfuel : ∀ now : CFiles F, (∀ f, files.put src f ≠ none → now f ≠ none) →
          (left fs now).card + 1 ≤ fuel := by
        intro now hnow
        have hmono : (left fs now).card ≤ (left fs files).card :=
          left_mono fun f hf => hnow f (put_ne_none (.inl hf))
        by_cases hmem : src ∈ fs.files
        · rw [if_pos hmem] at h
          have hlt : (left fs now).card < (left fs files).card := by
            refine Finset.card_lt_card ⟨fun f hf => ?_, fun hsub => ?_⟩
            · obtain ⟨hfile, hnone'⟩ := Finset.mem_filter.mp hf
              refine Finset.mem_filter.mpr ⟨hfile, by_contra fun hne => ?_⟩
              exact hnow f (put_ne_none (.inl hne)) hnone'
            · have hback := hsub (Finset.mem_filter.mpr ⟨hmem, hnone⟩)
              exact hnow src (put_ne_none (.inr rfl)) (Finset.mem_filter.mp hback).2
          omega
        · rw [if_neg hmem] at h
          omega
      refine bind_ne_error ?_ fun _ _ => (fun h => nomatch h)
      refine foldlM_ne_error (P := fun now : CFiles F => ∀ f, files.put src f ≠ none → now f ≠ none)
        (fun now b now' hnow hrun f hf => ?_) (fun now b hb hnow => ?_) fun _ h => h
      · exact addInclude_keeps (fun hrun hne => computeDependencies_keeps hrun hne) hrun (hnow f hf)
      · refine bind_ne_error (ih ?_) fun _ _ => (fun h => nomatch h)
        rw [if_pos (includes_files hincfiles hb)]
        exact hfuel _ fun f hf => addAll_ne_none (hnow f hf)

theorem createDependencies_ends {directories : Directories F} :
    createDependencies fs files directories src ≠ .error .unfinished := by
  refine computeDependencies_ends ?_
  have hcard : (left fs files).card ≤ fs.files.card := Finset.card_filter_le ..
  split <;> omega

end Ends

/-- The entries at which the search stops hold what the source reaches, and what such a file reaches
is collected there or elsewhere. -/
def Covered (fs : FileSystem F) (directories : List F) (files : CFiles F) (src : F) : Prop :=
  ∀ g known, Stops fs directories files src g → files g = some known →
    (∀ f ∈ known, Reaches fs directories src f) ∧
    ∀ f, Reaches fs directories g f → Collected fs directories files src f

section Coverage
variable {fs : FileSystem F} {directories : List F} {files files' : CFiles F} {src : F}
  {fuel : Nat} {known : List F}

theorem Searched.reaches {a b : F} (h : Searched fs directories files src a)
    (hinc : Includes fs directories a b) : Reaches fs directories src b := by
  induction h generalizing b with
  | src => exact .single hinc
  | include_ _ hinc' _ ih => exact (ih hinc').tail hinc

theorem Stops.reaches {g f : F} (h : Stops fs directories files src g)
    (hf : Reaches fs directories g f) : Reaches fs directories src f := by
  rcases h.2 with rfl | ⟨a, ha, hinc⟩
  · exact hf
  · exact (ha.reaches hinc).trans hf

theorem Searched.collected (hcovered : Covered fs directories files src) {a f : F}
    (ha : Searched fs directories files src a) (hf : Reaches fs directories a f) :
    Collected fs directories files src f := by
  induction hf using Relation.TransGen.head_induction_on with
  | single hinc => exact .inl ⟨_, ha, hinc⟩
  | @head a b hinc hrest ih =>
    cases hb : files b with
    | none => exact ih (ha.include_ hinc hb)
    | some known => exact (hcovered b known ⟨hb ▸ nofun, .inr ⟨a, ha, hinc⟩⟩ hb).2 f hrest

theorem collected_iff_covered : (∀ f, Collected fs directories files src f ↔
    Reaches fs directories src f) ↔ Covered fs directories files src := by
  constructor
  · intro h g known hstops hknown
    exact ⟨fun f hf => (h f).mp (.inr ⟨g, known, hstops, hknown, hf⟩),
      fun f hf => (h f).mpr (hstops.reaches hf)⟩
  · intro hcovered f
    constructor
    · rintro (⟨a, ha, hinc⟩ | ⟨g, known, hstops, hknown, hf⟩)
      · exact ha.reaches hinc
      · exact (hcovered g known hstops hknown).1 f hf
    · intro hf
      cases hsrc : files src with
      | none => exact (Searched.src hsrc).collected hcovered hf
      | some known => exact (hcovered src known ⟨hsrc ▸ (fun h => nomatch h), .inl rfl⟩ hsrc).2 f hf

/-- An entry that holds exactly what its file reaches. -/
def Exact (fs : FileSystem F) (directories : List F) (g : F) (known : List F) : Prop :=
  ∀ f, f ∈ known ↔ Reaches fs directories g f

theorem covered_of_exact (h : ∀ g known, Stops fs directories files src g →
    files g = some known → Exact fs directories g known) : Covered fs directories files src :=
  fun g known hstops hknown => ⟨fun f hf => hstops.reaches ((h g known hstops hknown f).mp hf),
    fun f hf => .inr ⟨g, known, hstops, hknown, (h g known hstops hknown f).mpr hf⟩⟩

theorem computeDependencies_same {f : F} {entry : List F}
    (h : computeDependencies fs directories fuel files src = .ok (files', known))
    (hentry : files f = some entry) : files' f = some entry := by
  have hgrown : Grown fs directories files src files :=
    ⟨fun _ _ h => h, fun f hnone hsome => absurd hnone hsome,
      fun f entry hnone hsome => nomatch hnone.symm.trans hsome⟩
  exact (computeDependencies_visits hgrown .src (fun hne => ⟨hne, .inl rfl⟩) h).1.keep f entry hentry

/-- Where no file includes itself, what is new in the table is exact. -/
theorem computeDependencies_exact (hacyclic : ∀ f, ¬ Reaches fs directories f f)
    (hexact : ∀ g known, g = src ∨ Reaches fs directories src g → files g = some known →
      Exact fs directories g known)
    (h : computeDependencies fs directories fuel files src = .ok (files', known)) :
    ∀ f entry, files f = none → files' f = some entry → Exact fs directories f entry := by
  induction fuel generalizing files files' src known with
  | zero => cases h
  | succ fuel ih =>
    have hall := h
    unfold computeDependencies at h
    split at h
    · cases h
      exact fun f entry hnone hsome => nomatch hnone.symm.trans hsome
    · next hsrc =>
      obtain ⟨incfiles, hincfiles, h⟩ := bind_ok.mp h
      obtain ⟨filled, hfilled, h⟩ := bind_ok.mp h
      cases h
      have hknown : ∀ entry, files' src = some entry → Exact fs directories src entry := by
        intro entry hentry f
        have hcollected := collected_iff hall f
        have hreaches := collected_iff_covered.mpr (covered_of_exact fun g known hstops hg =>
          hexact g known (hstops.2.imp_right fun ⟨a, ha, hinc⟩ => ha.reaches hinc) hg) f
        rw [hentry] at hcollected
        exact hcollected.trans hreaches
      -- the other entries are exact while the includes are gone through
      have hothers : (∀ f entry, files f = some entry → files' f = some entry) ∧
          ∀ f entry, f ≠ src → files f = none → files' f = some entry →
            Exact fs directories f entry := by
        refine foldlM_keeps (P := fun now : CFiles F =>
          (∀ f entry, files f = some entry → now f = some entry) ∧
            ∀ f entry, f ≠ src → files f = none → now f = some entry →
              Exact fs directories f entry) (fun b hb now now' hnow hinclude => ?_) ?_ hfilled
        · obtain ⟨hkeep, hnew⟩ := hnow
          have hinc : Includes fs directories src b := ⟨incfiles, hincfiles, hb⟩
          unfold addInclude at hinclude
          obtain ⟨⟨visited, more⟩, hvisited, hinclude⟩ := bind_ok.mp hinclude
          cases hinclude
          have hold : ∀ f, f ≠ src → (now.addAll src [b]) f = now f := fun f hne => by
            rw [mem_addAll, if_neg hne]
          have hbelow : ∀ g known, g = b ∨ Reaches fs directories b g →
              (now.addAll src [b]) g = some known → Exact fs directories g known := by
            intro g known hg hknown'
            have hreached : Reaches fs directories src g := by
              rcases hg with rfl | hg
              · exact .single hinc
              · exact .head hinc hg
            have hne : g ≠ src := fun heq => hacyclic src (heq ▸ hreached)
            rw [hold g hne] at hknown'
            cases hg' : files g with
            | none => exact hnew g known hne hg' hknown'
            | some entry =>
              cases (hkeep g entry hg').symm.trans hknown'
              exact hexact g _ (.inr hreached) hg'
          have hvisits := ih hbelow hvisited
          refine ⟨fun f entry hentry => ?_, fun f entry hne hnone hentry => ?_⟩
          · have hne : f ≠ src := by
              rintro rfl
              exact nomatch hsrc.symm.trans hentry
            rw [mem_addAll, if_neg hne]
            refine computeDependencies_same hvisited ?_
            rw [hold f hne]
            exact hkeep f entry hentry
          · rw [mem_addAll, if_neg hne] at hentry
            cases hnow : now f with
            | none => exact hvisits f entry ((hold f hne).trans hnow) hentry
            | some entry' =>
              have hsame := computeDependencies_same hvisited ((hold f hne).trans hnow)
              cases hsame.symm.trans hentry
              exact hnew f entry hne hnone hnow
        · have hother : ∀ f, f ≠ src → files.put src f = files f :=
            fun f hne => Function.update_of_ne hne _ _
          refine ⟨fun f entry hentry => ?_, fun f entry hne hnone hentry => ?_⟩
          · have hne : f ≠ src := by
              rintro rfl
              exact nomatch hsrc.symm.trans hentry
            rw [hother f hne]
            exact hentry
          · rw [hother f hne, hnone] at hentry
            cases hentry
      intro f entry hnone hentry
      by_cases heq : f = src
      · subst heq
        exact hknown entry hentry
      · exact hothers.2 f entry heq hnone hentry

/-- Calls in the same directories, where no file includes itself, leave exact entries only. -/
theorem createAll_exact {calls : List (Directories F × F)}
    (hdirectories : ∀ call ∈ calls, call.1.all = directories)
    (hacyclic : ∀ f, ¬ Reaches fs directories f f)
    (hexact : ∀ g known, files g = some known → Exact fs directories g known)
    (h : createAll fs files calls = .ok files') :
    ∀ g known, files' g = some known → Exact fs directories g known := by
  induction calls generalizing files with
  | nil =>
    cases h
    exact hexact
  | cons call calls ih =>
    unfold createAll at h
    obtain ⟨⟨after, known⟩, hcall, h⟩ := bind_ok.mp h
    refine ih (fun call hcall => hdirectories call (List.mem_cons_of_mem _ hcall)) ?_ h
    unfold createDependencies at hcall
    rw [hdirectories call List.mem_cons_self] at hcall
    intro g entry hentry
    cases hg : files g with
    | none =>
      exact computeDependencies_exact hacyclic (fun g known _ hg => hexact g known hg) hcall g entry hg
        hentry
    | some entry' =>
      cases (computeDependencies_same hcall hg).symm.trans hentry
      exact hexact g _ hg

omit [DecidableEq F] in
theorem needRecompile_eq_false {lastModified : F → Nat} {obj : Option Nat} {lines : List F}
    (h : needRecompile lastModified obj (some lines) = false) :
    ∃ date, obj = some date ∧ ∀ f ∈ lines, lastModified f ≤ date := by
  cases obj with
  | none => cases h
  | some date =>
    refine ⟨date, rfl, fun f hf => ?_⟩
    have hold := List.any_eq_false.mp h f hf
    exact Nat.not_lt.mp fun hlt => hold (decide_eq_true hlt)

end Coverage

/-- The object file is only kept when neither the source nor a file it reaches is newer. -/
def KeptUpToDate (fs : FileSystem F) (directories : List F) (src : F) (lines : List F) : Prop :=
  ∀ lastModified obj, needRecompile lastModified obj (some lines) = false → ∃ date, obj = some date ∧
    lastModified src ≤ date ∧ ∀ f, Reaches fs directories src f → lastModified f ≤ date

/-- After any calls, a call ends, and it returns the files that the source reaches if and only if
the entries at which it stops are covered; after calls in the same directories they are, where no
file includes itself. -/
theorem dependencies_iff_covered (fs : FileSystem F) {calls : List (Directories F × F)}
    {files : CFiles F} (h : createAll fs CFiles.empty calls = .ok files)
    (directories : Directories F) (src : F) :
    createDependencies fs files directories src ≠ .error .unfinished ∧
    (∀ files' known, createDependencies fs files directories src = .ok (files', known) →
      (((∀ f, f ∈ known ↔ Reaches fs directories.all src f) ∧
        KeptUpToDate fs directories.all src (createDependenciesFile src known)) ↔
          Covered fs directories.all files src)) ∧
    ((∀ call ∈ calls, call.1.all = directories.all) →
      (∀ f, ¬ Reaches fs directories.all f f) → Covered fs directories.all files src) := by
  refine ⟨createDependencies_ends, fun files' known hcall => ?_, fun hdirectories hacyclic => ?_⟩
  · have hcollected := collected_iff hcall
    rw [← collected_iff_covered]
    constructor
    · exact fun hright f => (hcollected f).symm.trans (hright.1 f)
    · intro hcovered
      have hclosure : ∀ f, f ∈ known ↔ Reaches fs directories.all src f :=
        fun f => (hcollected f).trans (hcovered f)
      refine ⟨hclosure, fun lastModified obj hkept => ?_⟩
      obtain ⟨date, hobj, hdates⟩ := needRecompile_eq_false hkept
      exact ⟨date, hobj, hdates src List.mem_cons_self,
        fun f hf => hdates f (List.mem_cons_of_mem _ ((hclosure f).mpr hf))⟩
  · have hempty : ∀ g known, CFiles.empty g = some known →
        Exact fs directories.all g known := fun g known hknown => by cases hknown
    exact covered_of_exact fun g known _ hknown =>
      createAll_exact hdirectories hacyclic hempty h g known hknown

/-- Two headers that include each other, and a third one that the first includes. -/
def headers : FileSystem String where
  files := {"a.c", "b.c", "h1.h", "h2.h", "h3.h"}
  file _ name := name
  parent _ := none
  parse name :=
    if name = "a.c" then .ok ([], ["h1.h"])
    else if name = "b.c" then .ok ([], ["h2.h"])
    else if name = "h1.h" then .ok ([], ["h2.h", "h3.h"])
    else if name = "h2.h" then .ok ([], ["h1.h"])
    else .ok ([], [])

def srcs : Directories String := ⟨[], ["src"], "tmp"⟩

theorem dependencies_iff_covered_sample : ∃ files known,
    createDependencies headers CFiles.empty srcs "a.c" = .ok (files, known) ∧
      ∀ f, f ∈ known ↔ Reaches headers srcs.all "a.c" f := by
  have hempty : Covered headers srcs.all CFiles.empty "a.c" :=
    fun g known hstops _ => absurd rfl hstops.1
  refine ⟨_, _, rfl, ?_⟩
  exact ((@dependencies_iff_covered _ _ headers [] CFiles.empty rfl srcs "a.c").2.1 _ _ rfl).mpr hempty |>.1

/-- The entry of a header that was in a cycle is used again, and the object file of the second
source is kept although a header that it reaches is newer. -/
theorem entry_of_cycle : ∃ files files' known,
    createAll headers CFiles.empty [(srcs, "a.c")] = .ok files ∧
    createDependencies headers files srcs "b.c" = .ok (files', known) ∧
    Reaches headers srcs.all "b.c" "h3.h" ∧ "h3.h" ∉ known ∧
    ¬ KeptUpToDate headers srcs.all "b.c" (createDependenciesFile "b.c" known) := by
  have hreaches : Reaches headers srcs.all "b.c" "h3.h" := by
    have hfirst : Includes headers srcs.all "b.c" "h2.h" := ⟨["h2.h"], rfl, List.mem_cons_self⟩
    have hsecond : Includes headers srcs.all "h2.h" "h1.h" := ⟨["h1.h"], rfl, List.mem_cons_self⟩
    have hthird : Includes headers srcs.all "h1.h" "h3.h" :=
      ⟨["h2.h", "h3.h"], rfl, List.mem_cons_of_mem _ List.mem_cons_self⟩
    exact .head hfirst (.head hsecond (.single hthird))
  refine ⟨_, _, ["h1.h", "h2.h"], rfl, rfl, hreaches, by decide, fun hkept => ?_⟩
  obtain ⟨date, hdate, -, hall⟩ :=
    hkept (fun f => if f = "h3.h" then 2 else 0) (some 1) (by decide)
  cases hdate
  exact absurd (hall "h3.h" hreaches) (by decide)

end Codinalte.Build
