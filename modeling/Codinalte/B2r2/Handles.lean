import Codinalte.Lib.Machine
import Mathlib.Data.List.Induction
import Mathlib.Data.List.Nodup

/-! The table of the handles of the blit library: an array that is allocated by the first call, and
replaced by a longer one when it is full. -/

namespace Codinalte.B2r2
open Machine

variable {D : Type}

def datas_start_size : Nat := 10

def datas_grow_size : Nat := 5

/-- `datas` and `data_count`; `NULL` is `none`, for the array as for what is in it. -/
structure Datas (D : Type) where
  datas : Option (List (Option D))
  data_count : Nat

def Datas.start : Datas D := ⟨none, 0⟩

/-- What the array has at an index. -/
def Datas.entry (t : Datas D) (i : Nat) : Option D := (t.datas.getD [])[i]?.join

def Datas.store (t : Datas D) (i : Nat) (value : Option D) : Datas D :=
  { t with datas := t.datas.map fun l => l.set i value }

/-- `malloc` says whether there is memory for the new array. -/
def grow_datas (malloc : Bool) (t : Datas D) : Option (Datas D) :=
  if malloc then
    some ⟨some ((t.datas.getD []).take t.data_count ++ List.replicate datas_grow_size none),
      t.data_count + datas_grow_size⟩
  else none

/-- The loop of `get_handle` from an index on, for as many rounds as the first argument says. -/
def find_handle (grow : Bool) (data : D) : Nat → Nat → Datas D → Option (Int × Datas D)
  | 0, _, _ => none
  | rounds + 1, handle, t =>
    if handle < t.data_count then
      match t.entry handle with
      | none => some (handle, t.store handle (some data))
      | some _ =>
        if handle = t.data_count - 1 then
          match grow_datas grow t with
          | none => some (-1, t)
          | some t => find_handle grow data rounds (handle + 1) t
        else find_handle grow data rounds (handle + 1) t
    else some (handle, t)

def get_handle (table grow : Bool) (data : D) (t : Datas D) : Option (Int × Datas D) :=
  match t.datas with
  | some _ => find_handle grow data (t.data_count + 1) 0 t
  | none =>
    if table then
      find_handle grow data (datas_start_size + 1) 0
        ⟨some (List.replicate datas_start_size none), datas_start_size⟩
    else some (-1, t)

def get_data (t : Datas D) (handle : Int) : Option D :=
  if handle ≥ t.data_count ∨ handle < 0 then none else t.entry handle.toNat

def free_handle (t : Datas D) (handle : Int) : Datas D :=
  if handle < t.data_count ∧ handle ≥ 0 then t.store handle.toNat none else t

/-- A call with what the system answers: whether the device opens, where the data of the handle is,
and whether there is memory for the first array and for a longer one. -/
inductive HandleCall (D : Type) where
  | blt_open (fd : Bool) (data : Option D) (table grow : Bool)
  | blt_close (handle : Int)

def blt_open (fd : Bool) (data : Option D) (table grow : Bool) (t : Datas D) :
    Option (Int × Datas D) :=
  if fd then
    match data with
    | none => some (-1, t)
    | some data => get_handle table grow data t
  else some (-1, t)

def blt_close (t : Datas D) (handle : Int) : Datas D :=
  match get_data t handle with
  | none => t
  | some _ => free_handle t handle

/-- `opened` is a record: the handles that were returned and not closed since, each with the data of
the call that returned it. -/
structure Handles (D : Type) where
  table : Datas D
  opened : List (Int × D)

def Handles.start : Handles D := ⟨.start, []⟩

def Handles.step (s : Handles D) : HandleCall D → Option (Handles D)
  | .blt_open fd data table grow => do
    let (handle, t) ← blt_open fd data table grow s.table
    return ⟨t, if handle < 0 then s.opened
      else data.toList.map (fun d => (handle, d)) ++ s.opened⟩
  | .blt_close handle =>
    some ⟨blt_close s.table handle, s.opened.filter fun entry => entry.1 ≠ handle⟩

/-- The array is as long as `data_count` says, and it is not allocated without an entry. -/
structure Datas.Counted (t : Datas D) : Prop where
  length : (t.datas.getD []).length = t.data_count
  positive : t.datas.isSome → 0 < t.data_count

theorem Datas.entry_of_le {t : Datas D} (ht : t.Counted) {i : Nat} (h : t.data_count ≤ i) :
    t.entry i = none := by
  unfold entry
  rw [List.getElem?_eq_none (ht.length ▸ h)]
  rfl

theorem get_data_ofNat {t : Datas D} (ht : t.Counted) (i : Nat) : get_data t i = t.entry i := by
  unfold get_data
  split
  · next h =>
    rw [Datas.entry_of_le ht (by omega)]
  · rfl

theorem get_data_neg (t : Datas D) {handle : Int} (h : handle < 0) : get_data t handle = none :=
  if_pos (.inr h)

theorem Datas.entry_store {t : Datas D} (ht : t.Counted) {i : Nat} (hi : i < t.data_count)
    (value : Option D) (j : Nat) :
    (t.store i value).entry j = if j = i then value else t.entry j := by
  have hlength := ht.length
  unfold entry store
  cases hd : t.datas with
  | none =>
    rw [hd] at hlength
    simp only [Option.getD_none, List.length_nil] at hlength
    omega
  | some l =>
    rw [hd] at hlength
    simp only [Option.getD_some] at hlength
    simp only [Option.map_some, Option.getD_some, List.getElem?_set]
    by_cases hj : j = i
    · subst hj
      simp [hlength, hi]
    · simp [hj, Ne.symm hj]

theorem Datas.counted_store {t : Datas D} (ht : t.Counted) (i : Nat) (value : Option D) :
    (t.store i value).Counted := by
  obtain ⟨hlength, hpositive⟩ := ht
  unfold store
  cases hd : t.datas with
  | none => exact ⟨by simpa [hd] using hlength, by simp⟩
  | some l => exact ⟨by simpa [hd] using hlength, by simpa [hd] using hpositive⟩

theorem grow_datas_spec {grow : Bool} {t t' : Datas D} (ht : t.Counted)
    (h : grow_datas grow t = some t') :
    t'.Counted ∧ t.data_count < t'.data_count ∧ ∀ i, t'.entry i = t.entry i := by
  obtain ⟨-, h⟩ := Option.ite_none_right_eq_some.mp h
  cases h
  have hlength := ht.length
  refine ⟨⟨?_, fun _ => ?_⟩, Nat.lt_add_of_pos_right (by decide), fun i => ?_⟩
  · simp [hlength]
  · exact Nat.lt_add_left _ (by decide)
  · unfold Datas.entry
    simp only [Option.getD_some]
    rw [List.take_of_length_le (Nat.le_of_eq hlength)]
    by_cases hi : i < (t.datas.getD []).length
    · rw [List.getElem?_append_left hi]
    · rw [List.getElem?_append_right (by omega), List.getElem?_eq_none (Nat.le_of_not_lt hi),
        List.getElem?_replicate]
      split <;> rfl

/-- What `get_handle` leaves: an error and the same entries, or one more entry where there was
none. -/
inductive Got (t : Datas D) (data : D) : Int × Datas D → Prop where
  | error (t' : Datas D) : t'.Counted → (∀ i, t'.entry i = t.entry i) → Got t data (-1, t')
  | handle (i : Nat) (t' : Datas D) : t'.Counted → t.entry i = none →
    (∀ j, t'.entry j = if j = i then some data else t.entry j) → Got t data (i, t')

theorem Got.congr {t u : Datas D} {data : D} {result : Int × Datas D}
    (h : ∀ i, u.entry i = t.entry i) (hgot : Got u data result) : Got t data result := by
  cases hgot with
  | error t' hcounted hsame => exact .error t' hcounted fun i => (hsame i).trans (h i)
  | handle i t' hcounted hfree hentry =>
    refine .handle i t' hcounted ((h i).symm.trans hfree) fun j => ?_
    rw [hentry, h]

theorem find_handle_free (grow : Bool) (data : D) (rounds : Nat) {handle : Nat} {t : Datas D}
    (hlt : handle < t.data_count) (hfree : t.entry handle = none) :
    find_handle grow data (rounds + 1) handle t =
      some ((handle : Int), t.store handle (some data)) := by
  unfold find_handle
  rw [if_pos hlt, hfree]

/-- The search ends at the latest with the first entry of a longer array. -/
theorem find_handle_spec (grow : Bool) (data : D) {rounds handle : Nat} {t : Datas D}
    (ht : t.Counted) (hlt : handle < t.data_count) (hrounds : t.data_count - handle < rounds) :
    ∃ result, find_handle grow data rounds handle t = some result ∧ Got t data result := by
  induction rounds generalizing handle with
  | zero => omega
  | succ rounds ih =>
    match hentry : t.entry handle with
    | none =>
      refine ⟨((handle : Int), _), find_handle_free grow data rounds hlt hentry, ?_⟩
      exact .handle handle _ (t.counted_store ht _ _) hentry (t.entry_store ht hlt _)
    | some taken =>
      unfold find_handle
      rw [if_pos hlt, hentry]
      dsimp only
      split
      · next hlast =>
        match hgrow : grow_datas grow t with
        | none => exact ⟨_, rfl, .error t ht fun _ => rfl⟩
        | some t' =>
          obtain ⟨ht', hlonger, hsame⟩ := grow_datas_spec ht hgrow
          obtain ⟨rounds, rfl⟩ : ∃ n, rounds = n + 1 := ⟨rounds - 1, by omega⟩
          have hfree : t'.entry (handle + 1) = none :=
            (hsame _).trans (t.entry_of_le ht (by omega))
          refine ⟨(((handle + 1 : Nat) : Int), _),
            find_handle_free grow data rounds (by omega) hfree, Got.congr hsame ?_⟩
          exact .handle _ _ (t'.counted_store ht' _ _) hfree (t'.entry_store ht' (by omega) _)
      · next hmore => exact ih (by omega) (by omega)

theorem get_handle_spec (table grow : Bool) (data : D) {t : Datas D} (ht : t.Counted) :
    ∃ result, get_handle table grow data t = some result ∧ Got t data result := by
  unfold get_handle
  split
  · next l hl =>
    have hpositive := ht.positive (by rw [hl]; rfl)
    exact find_handle_spec grow data ht hpositive (by omega)
  · next hnone =>
    split
    · have hcounted : (⟨some (List.replicate datas_start_size none), datas_start_size⟩ :
          Datas D).Counted :=
        ⟨by simp, fun _ => Nat.succ_pos _⟩
      obtain ⟨result, hfind, hgot⟩ :=
        find_handle_spec grow data hcounted (show 0 < datas_start_size by decide)
          (Nat.lt_succ_self _)
      refine ⟨result, hfind, hgot.congr fun i => ?_⟩
      unfold Datas.entry
      rw [hnone, Option.getD_some, List.getElem?_replicate]
      split <;> rfl
    · exact ⟨_, rfl, .error t ht fun _ => rfl⟩

theorem get_data_of_entries {t t' : Datas D} (ht : t.Counted) (ht' : t'.Counted)
    (h : ∀ i, t'.entry i = t.entry i) (handle : Int) : get_data t' handle = get_data t handle := by
  rcases Int.lt_or_le handle 0 with hneg | hpos
  · rw [get_data_neg t' hneg, get_data_neg t hneg]
  · obtain ⟨i, rfl⟩ := Int.eq_ofNat_of_zero_le hpos
    rw [get_data_ofNat ht', get_data_ofNat ht, h]

/-- What a call of `blt_open` does to the data of all handles. -/
inductive Opened (t : Datas D) (data : Option D) : Int × Datas D → Prop where
  | failed (t' : Datas D) : t'.Counted → (∀ h, get_data t' h = get_data t h) →
    Opened t data (-1, t')
  | opened (handle : Int) (d : D) (t' : Datas D) : t'.Counted → 0 ≤ handle →
    get_data t handle = none → data = some d →
    (∀ h, get_data t' h = if h = handle then some d else get_data t h) →
    Opened t data (handle, t')

theorem Got.opened {t : Datas D} (ht : t.Counted) {d : D} {result : Int × Datas D}
    (h : Got t d result) : Opened t (some d) result := by
  cases h with
  | error t' ht' hsame => exact .failed t' ht' (get_data_of_entries ht ht' hsame)
  | handle i t' ht' hfree hentry =>
    refine .opened i d t' ht' (Int.natCast_nonneg i) ?_ rfl fun h => ?_
    · rw [get_data_ofNat ht, hfree]
    · rcases Int.lt_or_le h 0 with hneg | hpos
      · rw [get_data_neg t' hneg, get_data_neg t hneg, if_neg (by omega)]
      · obtain ⟨j, rfl⟩ := Int.eq_ofNat_of_zero_le hpos
        rw [get_data_ofNat ht', get_data_ofNat ht, hentry]
        simp only [Int.natCast_inj]

theorem blt_open_spec (fd : Bool) (data : Option D) (table grow : Bool) {t : Datas D}
    (ht : t.Counted) :
    ∃ result, blt_open fd data table grow t = some result ∧ Opened t data result := by
  have hfailed : Opened t data (-1, t) := .failed t ht fun _ => rfl
  unfold blt_open
  cases fd with
  | false => exact ⟨_, rfl, hfailed⟩
  | true =>
    cases data with
    | none => exact ⟨_, rfl, hfailed⟩
    | some d =>
      obtain ⟨result, hget, hgot⟩ := get_handle_spec table grow d ht
      exact ⟨result, hget, hgot.opened ht⟩

theorem blt_close_spec {t : Datas D} (ht : t.Counted) (handle : Int) :
    (blt_close t handle).Counted ∧
      ∀ h, get_data (blt_close t handle) h = if h = handle then none else get_data t h := by
  unfold blt_close
  split
  · next hnone =>
    refine ⟨ht, fun h => ?_⟩
    split
    · next heq => rw [heq, hnone]
    · rfl
  · next d hsome =>
    unfold free_handle
    split
    · next hin =>
      have hclosed := t.counted_store ht handle.toNat none
      refine ⟨hclosed, fun h => ?_⟩
      rcases Int.lt_or_le h 0 with hneg | hpos
      · rw [get_data_neg _ hneg, get_data_neg t hneg, if_neg (by omega)]
      · obtain ⟨j, rfl⟩ := Int.eq_ofNat_of_zero_le hpos
        rw [get_data_ofNat hclosed, get_data_ofNat ht, t.entry_store ht (by omega)]
        exact if_congr (by omega) rfl rfl
    · next hout =>
      have hnone : get_data t handle = none := if_pos (by omega)
      rw [hnone] at hsome
      cases hsome

/-- The entries of the table are those of the handles that are open. -/
structure Handles.Inv (s : Handles D) : Prop where
  counted : s.table.Counted
  distinct : (s.opened.map Prod.fst).Nodup
  held : ∀ handle data, get_data s.table handle = some data ↔ (handle, data) ∈ s.opened

theorem Handles.Inv.notMem {s : Handles D} (h : s.Inv) {handle : Int}
    (hnone : get_data s.table handle = none) : handle ∉ s.opened.map Prod.fst := by
  intro hmem
  obtain ⟨⟨_, data⟩, hopened, rfl⟩ := List.mem_map.mp hmem
  rw [(h.held _ data).mpr hopened] at hnone
  cases hnone

theorem Handles.inv_start : (start : Handles D).Inv where
  counted := ⟨rfl, fun h => by cases h⟩
  distinct := List.nodup_nil
  held handle data := by
    refine ⟨fun h => ?_, fun h => nomatch h⟩
    unfold get_data at h
    split at h
    · cases h
    · cases h

theorem Handles.inv_step {s : Handles D} (h : s.Inv) (call : HandleCall D) :
    ∃ s', s.step call = some s' ∧ s'.Inv := by
  cases call with
  | blt_open fd data table grow =>
    obtain ⟨result, hopen, hspec⟩ := blt_open_spec fd data table grow h.counted
    unfold step
    dsimp only
    rw [hopen]
    refine ⟨_, rfl, ?_⟩
    cases hspec with
    | failed t' ht' hsame =>
      exact ⟨ht', h.distinct, fun handle data => by rw [hsame]; exact h.held handle data⟩
    | opened handle d t' ht' hpos hfree hdata hentry =>
      subst hdata
      rw [if_neg (Int.not_lt.mpr hpos)]
      refine ⟨ht', List.nodup_cons.mpr ⟨h.notMem hfree, h.distinct⟩, fun h' data => ?_⟩
      dsimp only
      rw [hentry, Option.toList_some, List.map_singleton, List.singleton_append, List.mem_cons]
      split
      · next heq =>
        subst heq
        refine ⟨fun hd => .inl (by rw [Option.some.inj hd]), fun hmem => ?_⟩
        rcases hmem with heq | hmem
        · rw [(Prod.mk.inj heq).2]
        · rw [(h.held _ _).mpr hmem] at hfree
          cases hfree
      · next hne =>
        rw [h.held]
        exact ⟨.inr, fun hmem => hmem.resolve_left fun heq => hne (Prod.mk.inj heq).1⟩
  | blt_close handle =>
    obtain ⟨hclosed, hentry⟩ := blt_close_spec h.counted handle
    refine ⟨_, rfl, hclosed, ?_, fun h' data => ?_⟩
    · exact h.distinct.sublist (List.filter_sublist.map _)
    · dsimp only
      rw [hentry, List.mem_filter]
      split
      · next heq => simp [heq]
      · next hne => simp [hne, h.held]

theorem Handles.inv_run (calls : List (HandleCall D)) :
    ∃ s, run Handles.step .start calls = some s ∧ s.Inv := by
  induction calls using List.reverseRecOn with
  | nil => exact ⟨_, rfl, inv_start⟩
  | append_singleton calls call ih =>
    obtain ⟨s, hrun, hs⟩ := ih
    obtain ⟨s', hstep, hs'⟩ := inv_step hs call
    exact ⟨s', run_snoc hrun hstep, hs'⟩

/-- Whatever was opened and closed before, the handles that are open are different numbers, each
finds the data of its own `blt_open`, and the next `blt_open` returns one that is not open, or fails
and changes nothing. -/
theorem handles_find_their_data (calls : List (HandleCall D)) :
    ∃ s, run Handles.step .start calls = some s ∧
      (s.opened.map Prod.fst).Nodup ∧
      (∀ handle data, get_data s.table handle = some data ↔ (handle, data) ∈ s.opened) ∧
      ∀ fd data table grow, ∃ handle t, blt_open fd data table grow s.table = some (handle, t) ∧
        (handle = -1 ∧ s.step (.blt_open fd data table grow) = some ⟨t, s.opened⟩ ∧
            (∀ h, get_data t h = get_data s.table h) ∨
          0 ≤ handle ∧ handle ∉ s.opened.map Prod.fst ∧
            ∃ d, data = some d ∧
              s.step (.blt_open fd data table grow) = some ⟨t, (handle, d) :: s.opened⟩ ∧
              ∀ h, get_data t h = if h = handle then some d else get_data s.table h) := by
  obtain ⟨s, hrun, hs⟩ := Handles.inv_run calls
  refine ⟨s, hrun, hs.distinct, hs.held, fun fd data table grow => ?_⟩
  obtain ⟨result, hopen, hspec⟩ := blt_open_spec fd data table grow hs.counted
  refine ⟨result.1, result.2, hopen, ?_⟩
  unfold Handles.step
  dsimp only
  rw [hopen]
  cases hspec with
  | failed t' ht' hsame => exact .inl ⟨rfl, rfl, hsame⟩
  | opened handle d t' ht' hpos hfree hdata hentry =>
    subst hdata
    refine .inr ⟨hpos, hs.notMem hfree, d, rfl, ?_, hentry⟩
    rw [Option.bind_eq_bind, Option.bind_some, if_neg (Int.not_lt.mpr hpos)]
    rfl

end Codinalte.B2r2
