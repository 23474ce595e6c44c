import Mathlib.Data.List.Basic
import Mathlib.Data.List.Perm.Basic
import Mathlib.Data.List.Range
import Mathlib.Data.Option.Basic

/-! The lists of component files: opening all of them, closing them, and pushing the components
into the component manager one after the other. An entry of a list comes with what its file and the
component manager do when they are asked at that place. -/

namespace Codinalte.CmProxy.Repository

def MAX_TEMPLATE_NAME_LENGTH : Nat := 128

inductive CmError where
  | outOfLimits
  | componentNotFound
  | other (error : Int)
deriving DecidableEq

structure Entry where
  name : List Char
  readFile : List Char → Bool
  push : Option CmError

/-- The files: each that is opened gets a new handle that is not NULL; `closed` are the handles that
were passed to `OSAL_CloseFile`. -/
structure Osal where
  opened : Nat
  closed : List Nat
deriving DecidableEq

def filename (templateName : List Char) : List Char :=
  templateName.map (fun c => if c = '.' then '/' else c) ++ ".elf4nmf".toList

def openComponent (e : Entry) (osal : Osal) : Except CmError Nat × Osal :=
  if MAX_TEMPLATE_NAME_LENGTH ≤ e.name.length then (.error .outOfLimits, osal)
  else if e.readFile (filename e.name) then
    (.ok (osal.opened + 1), { osal with opened := osal.opened + 1 })
  else (.error .componentNotFound, osal)

/-- `OSAL_CloseFile`; `none` is an access through NULL. -/
def closeComponent (osal : Osal) (file : Nat) : Option Osal :=
  if file = 0 then none else some { osal with closed := osal.closed ++ [file] }

/-- The entries `files[0..n)` are set; the failure closes them from the last to the first. -/
def openFrom (files : List Nat) : List Entry → Osal → Option (Except CmError (List Nat) × Osal)
  | [], osal => some (.ok files, osal)
  | e :: fileList, osal =>
    if e.name ≠ [] then
      match openComponent e osal with
      | (.ok file, osal) => openFrom (files ++ [file]) fileList osal
      | (.error error, osal) =>
        (files.reverse.foldlM closeComponent osal).map fun osal => (.error error, osal)
    else openFrom (files ++ [0]) fileList osal

def openComponents (fileList : List Entry) (osal : Osal) :
    Option (Except CmError (List Nat) × Osal) := openFrom [] fileList osal

def closeComponents (files : List Nat) (osal : Osal) : Option Osal :=
  (files.filter (· ≠ 0)).foldlM closeComponent osal

/-- `pushed` are the components that the component manager has, the last one first; releasing one
undoes pushing it. -/
def pushFrom (done : List Entry) : List Entry → Osal → List (List Char) →
    Option (Except CmError Unit × Osal × List (List Char))
  | [], osal, pushed => some (.ok (), osal, pushed)
  | e :: fileList, osal, pushed =>
    if e.name ≠ [] then
      match openComponent e osal with
      | (.error error, osal) => some (.error error, osal, pushed)
      | (.ok file, osal) => do
        let osal ← closeComponent osal file
        match e.push with
        | none => pushFrom (done ++ [e]) fileList osal (e.name :: pushed)
        | some error =>
          let released := (done.reverse.map Entry.name).filter (· ≠ [])
          return (.error error, osal, released.foldl List.erase pushed)
    else pushFrom (done ++ [e]) fileList osal pushed

def pushComponent (fileList : List Entry) (osal : Osal) (pushed : List (List Char)) :
    Option (Except CmError Unit × Osal × List (List Char)) := pushFrom [] fileList osal pushed

/-- Opening the file succeeds. -/
def Entry.opens (e : Entry) : Bool :=
  e.name.length < MAX_TEMPLATE_NAME_LENGTH && e.readFile (filename e.name)

/-- The handles of the files opened in between. -/
def handles (before after : Osal) : List Nat :=
  List.range' (before.opened + 1) (after.opened - before.opened)

/-- What was opened in between was closed in between, once each, and nothing else was. -/
def ClosesOpened (before after : Osal) : Prop :=
  ∃ files, after.closed = before.closed ++ files ∧ files.Perm (handles before after)

/-- A call that fails has closed what it opened, and one that succeeds leaves the files of the
entries that are not empty to `cm_closeComponents`. -/
def OpensAllOrNone (fileList : List Entry) (osal : Osal) : Prop :=
  ∃ result osal', openComponents fileList osal = some (result, osal') ∧
    match result with
    | .error _ => ClosesOpened osal osal'
    | .ok files => osal'.closed = osal.closed ∧
      List.Forall₂ (fun file e => file ≠ 0 ↔ e.name ≠ []) files fileList ∧
      files.filter (· ≠ 0) = handles osal osal' ∧
      ∃ osal'', closeComponents files osal' = some osal'' ∧ ClosesOpened osal osal''

/-- A call that fails leaves the pushed components as they were; no call leaves a file open. -/
def PushesAllOrNone (fileList : List Entry) (osal : Osal) (pushed : List (List Char)) : Prop :=
  ∃ result osal' pushed', pushComponent fileList osal pushed = some (result, osal', pushed') ∧
    ClosesOpened osal osal' ∧ ∀ error, result = .error error → pushed'.Perm pushed

/-- No empty entry stands before the first one that cannot be opened. -/
def NoEmptyBefore (fileList : List Entry) : Prop :=
  ∀ front e back, fileList = front ++ e :: back → (∀ e' ∈ front, e'.name ≠ [] → e'.opens = true) →
    e.name ≠ [] → e.opens = false → ∀ e' ∈ front, e'.name ≠ []

/-- The first entry that fails, if opening it is what fails, is the first that is not empty. -/
def OpenFailsFirst (fileList : List Entry) : Prop :=
  ∀ front e back, fileList = front ++ e :: back →
    (∀ e' ∈ front, e'.name ≠ [] → e'.opens = true ∧ e'.push = none) →
    e.name ≠ [] → e.opens = false → ∀ e' ∈ front, e'.name = []

section Open
variable {e : Entry} {osal osal' : Osal} {files : List Nat} {fileList : List Entry}

theorem open_component_ok (h : e.opens = true) : openComponent e osal =
    (.ok (osal.opened + 1), { osal with opened := osal.opened + 1 }) := by
  obtain ⟨hlength, hread⟩ := Bool.and_eq_true_iff.mp h
  unfold openComponent
  rw [if_neg (Nat.not_le_of_lt (of_decide_eq_true hlength)), if_pos hread]

theorem open_component_error (osal : Osal) (h : e.opens = false) :
    ∃ error, openComponent e osal = (.error error, osal) := by
  unfold openComponent
  split_ifs with hlength hread
  · exact ⟨_, rfl⟩
  · unfold Entry.opens at h
    rw [hread, decide_eq_true (Nat.lt_of_not_le hlength)] at h
    cases h
  · exact ⟨_, rfl⟩

/-- The handles that entries get when each that is not empty is opened. -/
def filesOf : List Entry → Nat → List Nat
  | [], _ => []
  | e :: fileList, opened =>
    if e.name ≠ [] then (opened + 1) :: filesOf fileList (opened + 1)
    else 0 :: filesOf fileList opened

/-- The number of the entries that are not empty. -/
def count (fileList : List Entry) : Nat := fileList.countP (·.name ≠ [])

theorem count_of_name (hname : e.name ≠ []) : count (e :: fileList) = count fileList + 1 :=
  List.countP_cons_of_pos (decide_eq_true hname)

theorem count_of_empty (hname : ¬ e.name ≠ []) : count (e :: fileList) = count fileList :=
  List.countP_cons_of_neg (by simpa using hname)

theorem files_of_forall (fileList : List Entry) (opened : Nat) :
    List.Forall₂ (fun file e => file ≠ 0 ↔ e.name ≠ []) (filesOf fileList opened) fileList := by
  induction fileList generalizing opened with
  | nil => exact .nil
  | cons e fileList ih =>
    unfold filesOf
    split_ifs with hname
    · exact .cons (iff_of_true (Nat.succ_ne_zero opened) hname) (ih _)
    · exact .cons (iff_of_false (fun h => h rfl) hname) (ih _)

theorem files_of_filter (fileList : List Entry) (opened : Nat) :
    (filesOf fileList opened).filter (· ≠ 0) = List.range' (opened + 1) (count fileList) := by
  induction fileList generalizing opened with
  | nil => rfl
  | cons e fileList ih =>
    unfold filesOf
    by_cases hname : e.name ≠ []
    · rw [if_pos hname, count_of_name hname, List.range'_succ,
        List.filter_cons_of_pos (by simp), ih]
    · rw [if_neg hname, count_of_empty hname, List.filter_cons_of_neg (by simp), ih]

theorem close_each (h : 0 ∉ files) : files.foldlM closeComponent osal =
    some { osal with closed := osal.closed ++ files } := by
  induction files generalizing osal with
  | nil =>
    rw [List.append_nil]
    rfl
  | cons file files ih =>
    obtain ⟨hne, hrest⟩ := List.ne_and_not_mem_of_not_mem_cons h
    rw [List.foldlM_cons, closeComponent, if_neg (Ne.symm hne)]
    show files.foldlM closeComponent { osal with closed := osal.closed ++ [file] } = _
    rw [ih hrest, List.append_assoc]
    rfl

theorem close_each_null (h : 0 ∈ files) : files.foldlM closeComponent osal = none := by
  induction files generalizing osal with
  | nil => cases h
  | cons file files ih =>
    rw [List.foldlM_cons, closeComponent]
    split_ifs with hfile
    · rfl
    · have hrest : 0 ∈ files := (List.mem_cons.mp h).resolve_left (Ne.symm hfile)
      exact ih hrest

theorem open_from_all (files : List Nat) (osal : Osal)
    (h : ∀ e ∈ fileList, e.name ≠ [] → e.opens = true) :
    openFrom files fileList osal = some (.ok (files ++ filesOf fileList osal.opened),
      { osal with opened := osal.opened + count fileList }) := by
  induction fileList generalizing files osal with
  | nil => simp [openFrom, filesOf, count]
  | cons e fileList ih =>
    obtain ⟨he, hrest⟩ := List.forall_mem_cons.mp h
    unfold openFrom filesOf
    by_cases hname : e.name ≠ []
    · have hcount : osal.opened + 1 + count fileList = osal.opened + count (e :: fileList) := by
        rw [count_of_name hname]
        omega
      rw [if_pos hname, if_pos hname, open_component_ok (he hname)]
      dsimp only
      rw [ih _ _ hrest, List.append_assoc, List.singleton_append]
      dsimp only
      rw [hcount]
    · rw [if_neg hname, if_neg hname, ih _ _ hrest, List.append_assoc, count_of_empty hname]
      rfl

theorem open_from_fails (files : List Nat) (osal : Osal) {front : List Entry} (back : List Entry)
    (h : ∀ e' ∈ front, e'.name ≠ [] → e'.opens = true) (hname : e.name ≠ [])
    (hopens : e.opens = false) : ∃ error, openFrom files (front ++ e :: back) osal =
      ((files ++ filesOf front osal.opened).reverse.foldlM closeComponent
        { osal with opened := osal.opened + count front }).map
        fun osal => (.error error, osal) := by
  induction front generalizing files osal with
  | nil =>
    obtain ⟨error, herror⟩ := open_component_error osal hopens
    refine ⟨error, ?_⟩
    rw [List.nil_append, openFrom, if_pos hname, herror]
    simp [filesOf, count]
  | cons e' front ih =>
    obtain ⟨he, hrest⟩ := List.forall_mem_cons.mp h
    unfold filesOf
    rw [List.cons_append, openFrom]
    by_cases hname' : e'.name ≠ []
    · have hcount : osal.opened + 1 + count front = osal.opened + count (e' :: front) := by
        rw [count_of_name hname']
        omega
      obtain ⟨error, herror⟩ := ih (files ++ [osal.opened + 1])
        { osal with opened := osal.opened + 1 } hrest
      refine ⟨error, ?_⟩
      rw [if_pos hname', if_pos hname', open_component_ok (he hname')]
      dsimp only
      rw [herror, List.append_assoc, List.singleton_append]
      dsimp only
      rw [hcount]
    · obtain ⟨error, herror⟩ := ih (files ++ [0]) osal hrest
      refine ⟨error, ?_⟩
      rw [if_neg hname', if_neg hname', herror, List.append_assoc, count_of_empty hname']
      rfl

/-- The names that are not empty. -/
def names (fileList : List Entry) : List (List Char) :=
  (fileList.map Entry.name).filter (· ≠ [])

/-- What was done once the entries of `front` are opened, pushed and closed. -/
def Osal.after (osal : Osal) (front : List Entry) : Osal where
  opened := osal.opened + count front
  closed := osal.closed ++ List.range' (osal.opened + 1) (count front)

theorem push_from_done (done : List Entry) (osal : Osal) (pushed : List (List Char))
    {front : List Entry} (back : List Entry)
    (h : ∀ e ∈ front, e.name ≠ [] → e.opens = true ∧ e.push = none) :
    pushFrom done (front ++ back) osal pushed =
      pushFrom (done ++ front) back (osal.after front) ((names front).reverse ++ pushed) := by
  induction front generalizing done osal pushed with
  | nil => simp [Osal.after, count, names]
  | cons e front ih =>
    obtain ⟨he, hrest⟩ := List.forall_mem_cons.mp h
    rw [List.cons_append, pushFrom]
    by_cases hname : e.name ≠ []
    · obtain ⟨hopens, hpush⟩ := he hname
      have hafter : Osal.after ⟨osal.opened + 1, osal.closed ++ [osal.opened + 1]⟩ front =
          osal.after (e :: front) := by
        simp only [Osal.after, count_of_name hname, List.range'_succ, List.append_assoc,
          List.singleton_append, Osal.mk.injEq, and_true]
        omega
      have hnames : (names front).reverse ++ e.name :: pushed =
          (names (e :: front)).reverse ++ pushed := by
        have hcons : names (e :: front) = e.name :: names front :=
          List.filter_cons_of_pos (decide_eq_true hname)
        rw [hcons, List.reverse_cons, List.append_assoc, List.singleton_append]
      rw [if_pos hname, open_component_ok hopens]
      simp only [closeComponent, Nat.succ_ne_zero, if_false, hpush, Option.bind_eq_bind,
        Option.bind_some]
      rw [ih _ _ _ hrest, hafter, hnames, List.append_assoc, List.singleton_append]
    · have hafter : osal.after (e :: front) = osal.after front := by
        unfold Osal.after
        rw [count_of_empty hname]
      have hnames : names (e :: front) = names front :=
        List.filter_cons_of_neg (by simpa using hname)
      rw [if_neg hname, ih _ _ _ hrest, hafter, hnames, List.append_assoc, List.singleton_append]

theorem after_closes (osal : Osal) (front : List Entry) : ClosesOpened osal (osal.after front) := by
  refine ⟨_, rfl, ?_⟩
  unfold handles Osal.after
  rw [Nat.add_sub_cancel_left]

/-- Releasing in the reverse order takes away what was pushed. -/
theorem foldl_erase_append {α : Type} [BEq α] [LawfulBEq α] (l s : List α) :
    l.foldl List.erase (l ++ s) = s := by
  induction l with
  | nil => rfl
  | cons x l ih =>
    rw [List.foldl_cons, List.cons_append, List.erase_cons_head]
    exact ih

theorem zero_mem_files_of {opened : Nat} :
    0 ∈ filesOf fileList opened ↔ ∃ e ∈ fileList, e.name = [] := by
  induction fileList generalizing opened with
  | nil => simp [filesOf]
  | cons e fileList ih =>
    unfold filesOf
    by_cases hname : e.name ≠ []
    · rw [if_pos hname, List.mem_cons, ih, List.exists_mem_cons_iff]
      exact or_congr (iff_of_false (Nat.succ_ne_zero opened).symm hname) Iff.rfl
    · rw [if_neg hname, List.exists_mem_cons_iff]
      exact iff_of_true List.mem_cons_self (.inl (not_not.mp hname))

/-- The first entry that fails, if there is one. -/
theorem first_failing {α : Type} (fails : α → Bool) (l : List α) :
    (∀ x ∈ l, fails x = false) ∨
      ∃ front x back, l = front ++ x :: back ∧ (∀ y ∈ front, fails y = false) ∧
        fails x = true := by
  cases hfind : l.find? fails with
  | none => exact .inl fun x hx => Bool.eq_false_iff.mpr (List.find?_eq_none.mp hfind x hx)
  | some x =>
    obtain ⟨hx, front, back, hsplit, hfront⟩ := List.find?_eq_some_iff_append.mp hfind
    refine .inr ⟨front, x, back, hsplit, fun y hy => ?_, hx⟩
    simpa using hfront y hy

theorem opens_all_or_none_iff (fileList : List Entry) (osal : Osal) :
    OpensAllOrNone fileList osal ↔ NoEmptyBefore fileList := by
  constructor
  · rintro ⟨result, osal', hopen, -⟩ front e back rfl hfront hname hopens e' he' hempty
    obtain ⟨error, herror⟩ := open_from_fails [] osal back hfront hname hopens
    have hnull : 0 ∈ ([] ++ filesOf front osal.opened).reverse :=
      List.mem_reverse.mpr (zero_mem_files_of.mpr ⟨e', he', hempty⟩)
    rw [close_each_null hnull, Option.map_none] at herror
    cases herror.symm.trans hopen
  · intro h
    rcases first_failing (fun e : Entry => decide (e.name ≠ []) && !e.opens) fileList with
      hall | ⟨front, e, back, rfl, hfront, hfails⟩
    · have hopens : ∀ e ∈ fileList, e.name ≠ [] → e.opens = true := by
        intro e he hname
        simpa [hname] using hall e he
      have hfilter := files_of_filter fileList osal.opened
      refine ⟨_, _, open_from_all [] osal hopens, rfl, files_of_forall .., ?_, ?_⟩
      · rw [List.nil_append, hfilter, handles, Nat.add_sub_cancel_left]
      · refine ⟨_, close_each (by simp), _, rfl, ?_⟩
        rw [List.nil_append, hfilter, handles, Nat.add_sub_cancel_left]
    · obtain ⟨hname, hopens⟩ := Bool.and_eq_true_iff.mp hfails
      have hnamed := of_decide_eq_true hname
      have hclosed : e.opens = false := by simpa using hopens
      have hfrontOpens : ∀ e' ∈ front, e'.name ≠ [] → e'.opens = true := by
        intro e' he' hname'
        simpa [hname'] using hfront e' he'
      obtain ⟨error, herror⟩ := open_from_fails [] osal back hfrontOpens hnamed hclosed
      have hnonempty := h front e back rfl hfrontOpens hnamed hclosed
      have hnotNull : 0 ∉ filesOf front osal.opened := by
        intro hzero
        obtain ⟨e', he', hempty⟩ := zero_mem_files_of.mp hzero
        exact hnonempty e' he' hempty
      have hfiles : filesOf front osal.opened = List.range' (osal.opened + 1) (count front) := by
        rw [← files_of_filter, List.filter_eq_self.mpr]
        intro file hfile
        exact decide_eq_true fun heq => hnotNull (heq ▸ hfile)
      rw [List.nil_append, close_each (fun hzero => hnotNull (List.mem_reverse.mp hzero))] at herror
      refine ⟨_, _, herror, _, rfl, ?_⟩
      rw [handles, Nat.add_sub_cancel_left, hfiles]
      exact List.reverse_perm _

theorem pushes_all_or_none_iff (fileList : List Entry) (osal : Osal) (pushed : List (List Char)) :
    PushesAllOrNone fileList osal pushed ↔ OpenFailsFirst fileList := by
  constructor
  · rintro ⟨result, osal', pushed', hpush, -, hkept⟩ front e back rfl hfront hname hopens
    obtain ⟨error, herror⟩ := open_component_error (osal.after front) hopens
    rw [pushComponent, push_from_done [] osal pushed (e :: back) hfront, pushFrom, if_pos hname,
      herror] at hpush
    cases hpush
    have hlength := (hkept error rfl).length_eq
    rw [List.length_append, List.length_reverse] at hlength
    have hnames : names front = [] := List.length_eq_zero_iff.mp (by omega)
    intro e' he'
    by_contra hname'
    have hmem : e'.name ∈ names front :=
      List.mem_filter.mpr ⟨List.mem_map_of_mem he', decide_eq_true hname'⟩
    rw [hnames] at hmem
    exact absurd hmem List.not_mem_nil
  · intro h
    rcases first_failing (fun e : Entry => decide (e.name ≠ []) && !(e.opens && e.push.isNone))
      fileList with hall | ⟨front, e, back, rfl, hfront, hfails⟩
    · have hdone : ∀ e ∈ fileList, e.name ≠ [] → e.opens = true ∧ e.push = none := by
        intro e he hname
        simpa [hname] using hall e he
      have hpush := push_from_done [] osal pushed [] hdone
      rw [List.append_nil] at hpush
      exact ⟨_, _, _, hpush, after_closes osal fileList, fun error heq => by cases heq⟩
    · obtain ⟨hname, hnot⟩ := Bool.and_eq_true_iff.mp hfails
      have hnamed := of_decide_eq_true hname
      have hdone : ∀ e' ∈ front, e'.name ≠ [] → e'.opens = true ∧ e'.push = none := by
        intro e' he' hname'
        simpa [hname'] using hfront e' he'
      unfold PushesAllOrNone
      rw [pushComponent, push_from_done [] osal pushed (e :: back) hdone, pushFrom, if_pos hnamed]
      cases hopens : e.opens with
      | false =>
        obtain ⟨error, herror⟩ := open_component_error (osal.after front) hopens
        rw [herror]
        refine ⟨_, _, _, rfl, after_closes osal front, fun _ _ => ?_⟩
        have hempty := h front e back rfl hdone hnamed hopens
        have hnames : names front = [] := by
          refine List.filter_eq_nil_iff.mpr fun name hmem => ?_
          obtain ⟨e', he', rfl⟩ := List.mem_map.mp hmem
          simpa using hempty e' he'
        rw [hnames]
        rfl
      | true =>
        rw [hopens] at hnot
        obtain ⟨error, herror⟩ : ∃ error, e.push = some error := by
          cases hpush : e.push with
          | none =>
            rw [hpush] at hnot
            cases hnot
          | some error => exact ⟨error, rfl⟩
        rw [open_component_ok hopens]
        simp only [closeComponent, Nat.succ_ne_zero, if_false, herror, Option.bind_eq_bind,
          Option.bind_some]
        refine ⟨_, _, _, rfl, ?_, fun _ _ => ?_⟩
        · refine ⟨List.range' (osal.opened + 1) (count front + 1), ?_, ?_⟩
          · simp only [Osal.after, List.append_assoc, List.range'_concat]
            rw [Nat.mul_comm, Nat.mul_one, Nat.add_right_comm]
          · simp only [handles, Osal.after]
            have hcount : osal.opened + count front + 1 - osal.opened = count front + 1 := by omega
            rw [hcount]
        · have hreleased : ((([] ++ front).reverse.map Entry.name).filter (· ≠ [])) =
              (names front).reverse := by
            rw [List.nil_append, List.map_reverse, List.filter_reverse]
            rfl
          rw [hreleased, foldl_erase_append]

/-- The two conditions are exact, whatever was opened and pushed before. -/
theorem file_lists_undone_iff (fileList : List Entry) (osal : Osal) (pushed : List (List Char)) :
    (OpensAllOrNone fileList osal ↔ NoEmptyBefore fileList) ∧
      (PushesAllOrNone fileList osal pushed ↔ OpenFailsFirst fileList) :=
  ⟨opens_all_or_none_iff fileList osal, pushes_all_or_none_iff fileList osal pushed⟩

def sampleEntry (name : String) (found : Bool) : Entry := ⟨name.toList, fun _ => found, none⟩

/-- An empty entry before a file that is missing is closed as NULL; a component that was pushed
before a file that is missing stays. -/
theorem roll_back_misses :
    (openComponents [sampleEntry "" true, sampleEntry "b" false] ⟨0, []⟩ = none ∧
      ¬ OpensAllOrNone [sampleEntry "" true, sampleEntry "b" false] ⟨0, []⟩) ∧
    pushComponent [sampleEntry "a" true, sampleEntry "b" false] ⟨0, []⟩ [] =
        some (.error .componentNotFound, ⟨1, [1]⟩, [['a']]) ∧
      ¬ PushesAllOrNone [sampleEntry "a" true, sampleEntry "b" false] ⟨0, []⟩ [] := by
  refine ⟨⟨rfl, ?_⟩, rfl, ?_⟩
  · rintro ⟨result, osal', hopen, -⟩
    cases hopen
  · rintro ⟨result, osal', pushed', hpush, -, hkept⟩
    cases hpush
    exact absurd (hkept _ rfl).length_eq (by decide)

end Open

end Codinalte.CmProxy.Repository
