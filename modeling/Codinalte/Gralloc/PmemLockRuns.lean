import Codinalte.Gralloc.PmemLock
import Codinalte.Lib.Machine
import Mathlib.Algebra.Group.Nat.Defs

/-! The lock word of a pmem buffer counts the locks that are granted, and a lock for write stands
alone. The count has 30 bits: what follows holds as long as it does not run over. -/

namespace Codinalte.Gralloc
open Codinalte.Machine

/-- Once past the store of `writeOwner`, and not yet past the store that clears it. -/
def LockPc.ownerStands : LockPc → Bool
  | .granted _ _ _ | .unlockSwap _ _ => false
  | _ => true

namespace PmemHandle

/-- The locks that the word counts. -/
def taken (s : PmemHandle) : List (Nat × Bool) := s.holders ++ s.failed

/-- Where a lock is granted the count has room for it. -/
def roomy (s : PmemHandle) : LockAction → Prop
  | .advance k _ => ∀ usage new, s.pc k = .lockSwap usage s.lockState new → s.taken.length + 1 < 2 ^ 30
  | _ => True

/-- A handle that nobody has locked yet. -/
structure Fresh (s : PmemHandle) : Prop where
  write : lockedForWrite s.lockState = false
  count : readCount s.lockState = 0
  rest : ∀ k, s.pc k = .idle
  holders : s.holders = []
  failed : s.failed = []
  mappings : s.mappings = 0

/-- A thread that unlocks for write is sure of the word. -/
def WriterUnlocks (s : PmemHandle) (k : Nat) (current : BitVec 32) : Prop :=
  lockedForWrite current = true ∧ (k, true) ∈ s.holders ∧ s.lockState = current

def PcOk (s : PmemHandle) (k : Nat) : LockPc → Prop
  | .locking _ | .busy => s.changed k = false
  | .lockSwap usage current new =>
    s.changed k = false ∧ lockedForWrite current = false ∧
      (usage.forWrite = true → readCount current = 0) ∧
      new = (if usage.forWrite then current ||| lockStateWrite else current) + 1
  | .granted usage _ new => (k, usage.forWrite) ∈ s.holders ∧ lockedForWrite new = usage.forWrite
  | .testMapped usage _ | .atMapLock usage | .inMapLock usage | .mapping usage | .markMapped usage =>
    (k, usage.forWrite) ∈ s.holders
  | .unlocking => ∃ w, (k, w) ∈ s.holders
  | .readOwner current => s.WriterUnlocks k current
  | .clearOwner current => s.WriterUnlocks k current ∧ s.writeOwner = gettid k
  | .unlockSwap current new =>
    (s.WriterUnlocks k current ∧ s.writeOwner = 0 ∧ new = (current &&& ~~~lockStateWrite) - 1) ∨
      (lockedForWrite current = false ∧ readCount current ≠ 0 ∧ (k, false) ∈ s.holders ∧
        new = current - 1)
  | .unlocked err => err = 0
  | _ => True

end PmemHandle

/-- `mapped` says whether the buffer was mapped at the start, and `first` is what `writeOwner` was.
-/
structure LockInv (mapped : Bool) (first : Nat) (s : PmemHandle) : Prop where
  word : Word s.lockState (s.taken.any Prod.snd) (mapped || decide (0 < s.mappings)) s.taken.length
  alone : ∀ x ∈ s.taken, x.2 = true → s.taken = [x]
  owner : s.writeOwner = first ∨ s.writeOwner = 0 ∨ s.taken.any Prod.snd = true
  owned : ∀ k, (k, true) ∈ s.holders → (s.pc k).ownerStands = true → s.writeOwner = gettid k
  pcs : ∀ k, s.PcOk k (s.pc k)

theorem PmemHandle.Fresh.inv {s : PmemHandle} (h : s.Fresh) : LockInv (isMapped s.lockState) s.writeOwner s := by
  have htaken : s.taken = [] := by
    rw [PmemHandle.taken, h.holders, h.failed]
    exact List.append_nil []
  refine ⟨?_, ?_, ?_, ?_, ?_⟩
  · rw [htaken, h.mappings]
    refine ⟨h.write, ?_, h.count⟩
    simp
  · rw [htaken]
    exact fun x hx => absurd hx List.not_mem_nil
  · exact Or.inl rfl
  · rw [h.holders]
    exact fun k hk => absurd hk List.not_mem_nil
  · intro k
    rw [h.rest k]
    exact trivial

section Steps
variable {s t : PmemHandle} {j k : Nat} {mapped : Bool} {first : Nat} {pc : LockPc}

theorem mem_taken {x : Nat × Bool} (h : x ∈ s.holders) : x ∈ s.taken := List.mem_append_left _ h

/-- While a thread holds the buffer for write nobody else holds it. -/
theorem LockInv.writer_alone (hinv : LockInv mapped first s) (hj : (j, true) ∈ s.holders) {x : Nat × Bool}
    (hx : x ∈ s.taken) : x = (j, true) := by
  rw [hinv.alone _ (mem_taken hj) rfl] at hx
  exact List.mem_singleton.mp hx

theorem LockInv.write_iff (hinv : LockInv mapped first s) :
    lockedForWrite s.lockState = true ↔ ∃ k, (k, true) ∈ s.taken := by
  rw [hinv.word.write, List.any_eq_true]
  constructor
  · rintro ⟨⟨k, w⟩, hmem, rfl⟩
    exact ⟨k, hmem⟩
  · rintro ⟨k, hmem⟩
    exact ⟨(k, true), hmem, rfl⟩

/-- What a step of one thread leaves true of another thread. -/
theorem PcOk.stable (h : s.PcOk j pc) (hheld : ∀ w, (j, w) ∈ s.holders → (j, w) ∈ t.holders)
    (hword : (j, true) ∈ s.holders → t.lockState = s.lockState ∧ t.writeOwner = s.writeOwner)
    (hchanged : t.changed j = s.changed j) : t.PcOk j pc := by
  have hwriter : ∀ current, s.WriterUnlocks j current → t.WriterUnlocks j current := by
    rintro current ⟨hwrite, hmem, hcur⟩
    exact ⟨hwrite, hheld true hmem, (hword hmem).1.trans hcur⟩
  cases pc with
  | locking usage => exact hchanged.trans h
  | busy => exact hchanged.trans h
  | lockSwap usage current new => exact ⟨hchanged.trans h.1, h.2⟩
  | granted usage current new => exact ⟨hheld _ h.1, h.2⟩
  | testMapped usage current => exact hheld _ h
  | atMapLock usage => exact hheld _ h
  | inMapLock usage => exact hheld _ h
  | mapping usage => exact hheld _ h
  | markMapped usage => exact hheld _ h
  | unlocking =>
    obtain ⟨w, hw⟩ := h
    exact ⟨w, hheld w hw⟩
  | readOwner current => exact hwriter current h
  | clearOwner current => exact ⟨hwriter current h.1, (hword h.1.2.1).2.trans h.2⟩
  | unlockSwap current new =>
    rcases h with ⟨hw, howner, hnew⟩ | ⟨hw, hcount, hmem, hnew⟩
    · exact Or.inl ⟨hwriter current hw, (hword hw.2.1).2.trans howner, hnew⟩
    · exact Or.inr ⟨hw, hcount, hheld false hmem, hnew⟩
  | unlocked err => exact h
  | idle => trivial
  | leaveMapLock err => trivial
  | readBase err => trivial
  | locked err vaddr => trivial

/-- A step of the thread `k`, which goes to `pc`. -/
theorem LockInv.move (hinv : LockInv mapped first s) (hpc : t.pc = Function.update s.pc k pc)
    (hchanged : ∀ j, j ≠ k → t.changed j = s.changed j)
    (hheld : ∀ j, j ≠ k → ∀ w, (j, w) ∈ t.holders ↔ (j, w) ∈ s.holders)
    (hword : ∀ j, j ≠ k → (j, true) ∈ s.holders →
      t.lockState = s.lockState ∧ t.writeOwner = s.writeOwner)
    (word : Word t.lockState (t.taken.any Prod.snd) (mapped || decide (0 < t.mappings))
      t.taken.length)
    (alone : ∀ x ∈ t.taken, x.2 = true → t.taken = [x])
    (owner : t.writeOwner = first ∨ t.writeOwner = 0 ∨ t.taken.any Prod.snd = true)
    (owned : (k, true) ∈ t.holders → pc.ownerStands = true → t.writeOwner = gettid k)
    (ok : t.PcOk k pc) : LockInv mapped first t := by
  refine ⟨word, alone, owner, ?_, ?_⟩
  · intro j hj hstands
    by_cases hjk : j = k
    · subst hjk
      rw [hpc, Function.update_self] at hstands
      exact owned hj hstands
    · rw [hpc, Function.update_of_ne hjk] at hstands
      have hold := (hheld j hjk true).mp hj
      exact (hword j hjk hold).2.trans (hinv.owned j hold hstands)
  · intro j
    by_cases hjk : j = k
    · subst hjk
      rw [hpc, Function.update_self]
      exact ok
    · rw [hpc, Function.update_of_ne hjk]
      exact PcOk.stable (hinv.pcs j) (fun w => (hheld j hjk w).mpr) (hword j hjk) (hchanged j hjk)

/-- A step that writes neither the word nor its owner, and grants and releases no lock. -/
theorem LockInv.keep (hinv : LockInv mapped first s) (hpc : t.pc = Function.update s.pc k pc)
    (hchanged : ∀ j, j ≠ k → t.changed j = s.changed j) (hstate : t.lockState = s.lockState)
    (howner : t.writeOwner = s.writeOwner) (hholders : t.holders = s.holders)
    (hfailed : t.failed = s.failed) (hmappings : t.mappings = s.mappings)
    (hstands : pc.ownerStands = true → (s.pc k).ownerStands = true ∨ (k, true) ∉ s.holders)
    (ok : t.PcOk k pc) : LockInv mapped first t := by
  have htaken : t.taken = s.taken := by
    rw [PmemHandle.taken, hholders, hfailed, PmemHandle.taken]
  refine hinv.move hpc hchanged ?_ ?_ ?_ ?_ ?_ ?_ ok
  · intro j _ w
    rw [hholders]
  · exact fun j _ _ => ⟨hstate, howner⟩
  · rw [hstate, htaken, hmappings]
    exact hinv.word
  · rw [htaken]
    exact hinv.alone
  · rw [howner, htaken]
    exact hinv.owner
  · intro hk hnow
    rw [hholders] at hk
    rw [howner]
    exact hinv.owned k hk ((hstands hnow).resolve_right (not_not_intro hk))

theorem LockInv.goto (hinv : LockInv mapped first s) (hstands : (s.pc k).ownerStands = true)
    (ok : s.PcOk k pc) (hok : (s.goto k pc).PcOk k pc ↔ s.PcOk k pc) :
    LockInv mapped first (s.goto k pc) :=
  hinv.keep rfl (fun _ _ => rfl) rfl rfl rfl rfl rfl (fun _ => Or.inl hstands) (hok.mpr ok)

theorem goto_pc_ok : (s.goto k pc).PcOk j pc ↔ s.PcOk j pc := by
  cases pc <;> exact Iff.rfl

theorem LockInv.no_writer (hinv : LockInv mapped first s) (h : lockedForWrite s.lockState = false) :
    (k, true) ∉ s.taken := by
  intro hmem
  rw [hinv.write_iff.mpr ⟨k, hmem⟩] at h
  cases h

/-- A reader's lock says that nobody holds the buffer for write. -/
theorem LockInv.reader_only (hinv : LockInv mapped first s) (hj : (j, false) ∈ s.holders) :
    (k, true) ∉ s.holders := by
  intro hk
  have heq := hinv.writer_alone hk (mem_taken hj)
  cases heq

theorem lock_load_inv {usage : Usage} (hinv : LockInv mapped first s) (hpc : s.pc k = .locking usage) :
    LockInv mapped first (s.lockLoad k usage) := by
  have hstands : (s.pc k).ownerStands = true := by
    rw [hpc]
    rfl
  have hfresh : s.changed k = false := by
    have hold := hinv.pcs k
    rwa [hpc] at hold
  unfold PmemHandle.lockLoad
  dsimp only
  cases hwrite : lockedForWrite s.lockState with
  | true =>
    rw [if_pos rfl]
    exact hinv.goto hstands hfresh goto_pc_ok
  | false =>
    rw [if_neg Bool.false_ne_true]
    by_cases hbusy : readCount s.lockState ≠ 0 ∧ usage.forWrite
    · rw [if_pos hbusy]
      exact hinv.goto hstands hfresh goto_pc_ok
    · rw [if_neg hbusy]
      refine hinv.goto hstands ⟨hfresh, hwrite, ?_, rfl⟩ goto_pc_ok
      intro hforWrite
      by_contra hcount
      exact hbusy ⟨hcount, hforWrite⟩

theorem any_cons_taken (hstate : ¬ (s.taken.any Prod.snd = true)) (w : Bool) :
    ((k, w) :: s.taken).any Prod.snd = w := by
  rw [List.any_cons, Bool.eq_false_iff.mpr hstate, Bool.or_false]

theorem swap_for_lock_inv {usage : Usage} {current new : BitVec 32} (hinv : LockInv mapped first s)
    (hroom : s.lockState = current → s.taken.length + 1 < 2 ^ 30)
    (hpc : s.pc k = .lockSwap usage current new) :
    LockInv mapped first (s.swapForLock k usage current new) := by
  have hold := hinv.pcs k
  rw [hpc] at hold
  obtain ⟨hfresh, hwrite, hempty, hnew⟩ := hold
  unfold PmemHandle.swapForLock
  by_cases hcur : s.lockState = current
  · rw [if_pos hcur]
    subst hcur
    -- the word says that nobody writes, and for a writer that nobody reads
    have hnone : ∀ j, (j, true) ∉ s.taken := fun j => hinv.no_writer hwrite
    have hany : ¬ (s.taken.any Prod.snd = true) := by
      rw [← hinv.word.write, hwrite]
      exact Bool.false_ne_true
    have hword : Word s.lockState false (mapped || decide (0 < s.mappings)) s.taken.length := by
      have hself := hinv.word
      rwa [Bool.eq_false_iff.mpr hany] at hself
    have hnext : Word new usage.forWrite (mapped || decide (0 < s.mappings)) (s.taken.length + 1) := by
      rw [hnew]
      cases hfor : usage.forWrite with
      | true => exact hword.set_write.add_one (hroom rfl)
      | false => exact hword.add_one (hroom rfl)
    refine hinv.move rfl ?_ ?_ ?_ ?_ ?_ ?_ ?_ ⟨List.mem_cons_self, hnext.write⟩
    · exact fun j hj => Function.update_of_ne hj _ _
    · intro j hj w
      refine ⟨fun hmem => ?_, List.mem_cons_of_mem _⟩
      rcases List.mem_cons.mp hmem with heq | hmem
      · exact absurd (congrArg Prod.fst heq) hj
      · exact hmem
    · exact fun j _ hmem => absurd (mem_taken hmem) (hnone j)
    · have htaken : ((k, usage.forWrite) :: s.taken).any Prod.snd = usage.forWrite :=
        any_cons_taken hany _
      change Word new (((k, usage.forWrite) :: s.taken).any Prod.snd) _
        ((k, usage.forWrite) :: s.taken).length
      rw [htaken]
      exact hnext
    · change ∀ x ∈ (k, usage.forWrite) :: s.taken, x.2 = true →
        (k, usage.forWrite) :: s.taken = [x]
      intro x hx hx2
      rcases List.mem_cons.mp hx with rfl | hx
      · have hlength : s.taken.length = 0 := by
          rw [← hword.count]
          exact hempty hx2
        rw [List.length_eq_zero_iff.mp hlength]
      · obtain ⟨j, w⟩ := x
        cases hx2
        exact absurd hx (hnone j)
    · exact hinv.owner.imp_right fun howner => Or.inl (howner.resolve_right hany)
    · exact fun _ hstands => absurd hstands Bool.false_ne_true
  · rw [if_neg hcur]
    refine hinv.keep rfl (fun _ _ => rfl) rfl rfl rfl rfl rfl ?_ hfresh
    exact fun _ => Or.inl (by rw [hpc]; rfl)

theorem store_owner_inv {usage : Usage} {current new : BitVec 32} (hinv : LockInv mapped first s)
    (hpc : s.pc k = .granted usage current new) :
    LockInv mapped first (s.storeOwner k usage current new) := by
  have hold := hinv.pcs k
  rw [hpc] at hold
  obtain ⟨hmem, hnew⟩ := hold
  unfold PmemHandle.storeOwner
  rw [hnew]
  cases hfor : usage.forWrite with
  | true =>
    rw [hfor] at hmem
    rw [if_pos rfl]
    refine hinv.move rfl ?_ (fun j _ w => Iff.rfl) ?_ hinv.word hinv.alone ?_ (fun _ _ => rfl) ?_
    · exact fun j hj => Function.update_of_ne hj _ _
    · intro j hj hjmem
      have heq := hinv.writer_alone hmem (mem_taken hjmem)
      exact absurd (congrArg Prod.fst heq) hj
    · exact Or.inr (Or.inr (List.any_eq_true.mpr ⟨(k, true), mem_taken hmem, rfl⟩))
    · change (k, usage.forWrite) ∈ s.holders
      rw [hfor]
      exact hmem
  | false =>
    rw [hfor] at hmem
    rw [if_neg Bool.false_ne_true]
    refine hinv.keep rfl (fun _ _ => rfl) rfl rfl rfl rfl rfl ?_ ?_
    · exact fun _ => Or.inr (hinv.reader_only hmem)
    · change (k, usage.forWrite) ∈ s.holders
      rw [hfor]
      exact hmem

theorem test_mapped_inv {usage : Usage} {current : BitVec 32} (hinv : LockInv mapped first s)
    (hpc : s.pc k = .testMapped usage current) :
    LockInv mapped first (s.testMapped k usage current) := by
  have hmem := hinv.pcs k
  rw [hpc] at hmem
  have hstands : (s.pc k).ownerStands = true := by
    rw [hpc]
    rfl
  unfold PmemHandle.testMapped
  split
  · split
    · exact hinv.goto hstands trivial goto_pc_ok
    · exact hinv.goto hstands hmem goto_pc_ok
  · exact hinv.goto hstands trivial goto_pc_ok

theorem perm_failed {x : Nat × Bool} (hx : x ∈ s.holders) :
    (s.holders.erase x ++ x :: s.failed).Perm s.taken := by
  have hfront : (s.holders.erase x ++ x :: s.failed).Perm (x :: (s.holders.erase x ++ s.failed)) :=
    List.perm_middle
  have hback : (x :: s.holders.erase x).Perm s.holders := (List.perm_cons_erase hx).symm
  exact hfront.trans (hback.append_right s.failed)

theorem mem_erase_other {x : Nat × Bool} {w : Bool} {l : List (Nat × Bool)} (h : j ≠ x.1) :
    (j, w) ∈ l.erase x ↔ (j, w) ∈ l :=
  List.mem_erase_of_ne fun heq => h (congrArg Prod.fst heq)

theorem gralloc_map_inv {usage : Usage} {mmap : Except Int Nat} (hinv : LockInv mapped first s)
    (hpc : s.pc k = .mapping usage) : LockInv mapped first (s.grallocMap k usage mmap) := by
  have hmem := hinv.pcs k
  rw [hpc] at hmem
  have hstands : (s.pc k).ownerStands = true := by
    rw [hpc]
    rfl
  unfold PmemHandle.grallocMap
  dsimp only
  split
  · exact hinv.keep rfl (fun _ _ => rfl) rfl rfl rfl rfl rfl (fun _ => Or.inl hstands) hmem
  · split
    · exact hinv.goto hstands hmem goto_pc_ok
    · have hperm := perm_failed hmem
      refine hinv.move rfl (fun _ _ => rfl) ?_ (fun _ _ _ => ⟨rfl, rfl⟩) ?_ ?_ ?_ ?_ trivial
      · exact fun j hj w => mem_erase_other hj
      · change Word s.lockState ((s.holders.erase _ ++ _ :: s.failed).any Prod.snd) _
          (s.holders.erase _ ++ _ :: s.failed).length
        rw [hperm.any_eq, hperm.length_eq]
        exact hinv.word
      · intro x hx hx2
        have hsingle := hinv.alone x (hperm.mem_iff.mp hx) hx2
        exact List.perm_singleton.mp (hperm.trans (List.Perm.of_eq hsingle))
      · change s.writeOwner = first ∨ s.writeOwner = 0 ∨
          (s.holders.erase _ ++ _ :: s.failed).any Prod.snd = true
        rw [hperm.any_eq]
        exact hinv.owner
      · exact fun hk _ => hinv.owned k (List.mem_of_mem_erase hk) hstands

theorem mark_mapped_inv {usage : Usage} (hinv : LockInv mapped first s)
    (hpc : s.pc k = .markMapped usage) : LockInv mapped first (s.markMapped k) := by
  have hmem := hinv.pcs k
  rw [hpc] at hmem
  have hstands : (s.pc k).ownerStands = true := by
    rw [hpc]
    rfl
  refine hinv.move rfl ?_ (fun _ _ _ => Iff.rfl) ?_ ?_ hinv.alone hinv.owner ?_ trivial
  · exact fun j hj => Function.update_of_ne hj _ _
  · intro j hj hjmem
    have heq := hinv.writer_alone hjmem (mem_taken hmem)
    exact absurd (congrArg Prod.fst heq).symm hj
  · have hset := hinv.word.set_mapped
    have hlater : (mapped || decide (0 < s.mappings + 1)) = true := by
      rw [decide_eq_true (Nat.succ_pos s.mappings), Bool.or_true]
    change Word (s.lockState ||| lockStateMapped) (s.taken.any Prod.snd)
      (mapped || decide (0 < s.mappings + 1)) s.taken.length
    rw [hlater]
    exact hset
  · exact fun hk _ => hinv.owned k hk hstands

theorem unlock_load_inv (hinv : LockInv mapped first s) (hpc : s.pc k = .unlocking) :
    LockInv mapped first (s.unlockLoad k) := by
  have hold := hinv.pcs k
  rw [hpc] at hold
  obtain ⟨w, hmem⟩ := hold
  unfold PmemHandle.unlockLoad
  dsimp only
  cases hwrite : lockedForWrite s.lockState with
  | true =>
    rw [if_pos rfl]
    obtain ⟨j, hj⟩ := hinv.write_iff.mp hwrite
    have hsingle := hinv.alone _ hj rfl
    have heq : (k, w) = (j, true) := by
      have hin := mem_taken hmem
      rw [hsingle] at hin
      exact List.mem_singleton.mp hin
    cases heq
    refine hinv.goto ?_ ⟨hwrite, hmem, rfl⟩ goto_pc_ok
    rw [hpc]
    rfl
  | false =>
    have hw : w = false := by
      cases w with
      | true => exact absurd (mem_taken hmem) (hinv.no_writer hwrite)
      | false => rfl
    subst hw
    have hcount : readCount s.lockState ≠ 0 := by
      rw [hinv.word.count]
      exact Nat.ne_of_gt (List.length_pos_of_mem (mem_taken hmem))
    rw [if_neg Bool.false_ne_true, PmemHandle.testCount, if_neg hcount]
    refine hinv.keep rfl (fun _ _ => rfl) rfl rfl rfl rfl rfl ?_ ?_
    · exact fun hstands => absurd hstands Bool.false_ne_true
    · exact Or.inr ⟨hwrite, hcount, hmem, rfl⟩

theorem read_owner_inv {current : BitVec 32} (hinv : LockInv mapped first s)
    (hpc : s.pc k = .readOwner current) : LockInv mapped first (s.readOwner k current) := by
  have hold := hinv.pcs k
  rw [hpc] at hold
  have hstands : (s.pc k).ownerStands = true := by
    rw [hpc]
    rfl
  have howner := hinv.owned k hold.2.1 hstands
  rw [PmemHandle.readOwner, if_pos howner]
  exact hinv.goto hstands ⟨hold, howner⟩ goto_pc_ok

theorem LockInv.writer_word (hinv : LockInv mapped first s) (hmem : (k, true) ∈ s.holders) :
    Word s.lockState true (mapped || decide (0 < s.mappings)) 1 := by
  have hword := hinv.word
  rw [hinv.alone _ (mem_taken hmem) rfl] at hword
  exact hword

theorem clear_owner_inv {current : BitVec 32} (hinv : LockInv mapped first s)
    (hpc : s.pc k = .clearOwner current) : LockInv mapped first (s.clearOwner k current) := by
  have hold := hinv.pcs k
  rw [hpc] at hold
  obtain ⟨⟨hwrite, hmem, rfl⟩, -⟩ := hold
  have hcount : readCount (s.lockState &&& ~~~lockStateWrite) ≠ 0 := by
    rw [(hinv.writer_word hmem).clear_write.count]
    decide
  rw [PmemHandle.clearOwner, PmemHandle.testCount, if_neg hcount]
  refine hinv.move rfl ?_ (fun _ _ _ => Iff.rfl) ?_ hinv.word hinv.alone ?_ ?_ ?_
  · exact fun j hj => Function.update_of_ne hj _ _
  · intro j hj hjmem
    have heq := hinv.writer_alone hmem (mem_taken hjmem)
    exact absurd (congrArg Prod.fst heq) hj
  · exact Or.inr (Or.inl rfl)
  · exact fun _ hstands => absurd hstands Bool.false_ne_true
  · exact Or.inl ⟨⟨hwrite, hmem, rfl⟩, rfl, rfl⟩

theorem swap_for_unlock_inv {current new : BitVec 32} (hinv : LockInv mapped first s)
    (hpc : s.pc k = .unlockSwap current new) : LockInv mapped first (s.swapForUnlock k current new) := by
  have hold := hinv.pcs k
  rw [hpc] at hold
  unfold PmemHandle.swapForUnlock
  rcases hold with ⟨⟨hwrite, hmem, rfl⟩, howner, rfl⟩ | ⟨hwrite, hcount, hmem, rfl⟩
  · -- the word cannot have moved: a writer is alone
    have hword : Word ((s.lockState &&& ~~~lockStateWrite) - 1) false
        (mapped || decide (0 < s.mappings)) 0 := (hinv.writer_word hmem).clear_write.sub_one
    have hsingle : s.holders ++ s.failed = [(k, true)] := hinv.alone _ (mem_taken hmem) rfl
    obtain ⟨hholders, hfailed⟩ : s.holders = [(k, true)] ∧ s.failed = [] := by
      rcases List.append_eq_singleton_iff.mp hsingle with ⟨hnil, -⟩ | h
      · rw [hnil] at hmem
        exact absurd hmem List.not_mem_nil
      · exact h
    have hflag : (lockedForWrite s.lockState &&
        !lockedForWrite ((s.lockState &&& ~~~lockStateWrite) - 1)) = true := by
      rw [hwrite, hword.write]
      rfl
    rw [if_pos rfl, hflag]
    have hempty : s.holders.erase (k, true) = [] := by
      rw [hholders]
      exact List.erase_cons_head _ _
    have htaken : s.holders.erase (k, true) ++ s.failed = [] := by
      rw [hempty, hfailed]
      exact List.append_nil []
    refine hinv.move rfl ?_ ?_ ?_ ?_ ?_ ?_ ?_ rfl
    · exact fun j hj => Function.update_of_ne hj _ _
    · exact fun j hj w => mem_erase_other hj
    · intro j hj hjmem
      have heq := hinv.writer_alone hmem (mem_taken hjmem)
      exact absurd (congrArg Prod.fst heq) hj
    · change Word _ ((s.holders.erase (k, true) ++ s.failed).any Prod.snd) _
        (s.holders.erase (k, true) ++ s.failed).length
      rw [htaken]
      exact hword
    · change ∀ x ∈ s.holders.erase (k, true) ++ s.failed, x.2 = true → _
      rw [htaken]
      exact fun x hx => absurd hx List.not_mem_nil
    · exact Or.inr (Or.inl howner)
    · intro hk
      change (k, true) ∈ s.holders.erase (k, true) at hk
      rw [hempty] at hk
      exact absurd hk List.not_mem_nil
  · -- a reader leaves: the others stay, with those whose mapping failed
    have hnone : ∀ j, s.lockState = current → (j, true) ∉ s.taken := by
      rintro j rfl
      exact hinv.no_writer hwrite
    by_cases hcur : s.lockState = current
    · have hperm : s.taken.Perm ((k, false) :: (s.holders.erase (k, false) ++ s.failed)) :=
        (List.perm_cons_erase hmem).append_right s.failed
      have hlength := hperm.length_eq
      rw [List.length_cons] at hlength
      have hany := hperm.any_eq (f := Prod.snd)
      rw [List.any_cons, Bool.false_or] at hany
      have hword : Word (current - 1) ((s.holders.erase (k, false) ++ s.failed).any Prod.snd)
          (mapped || decide (0 < s.mappings)) (s.holders.erase (k, false) ++ s.failed).length := by
        rw [← hany, ← hcur]
        apply Word.sub_one
        rw [← hlength]
        exact hinv.word
      rw [if_pos hcur, hwrite, Bool.false_and]
      refine hinv.move rfl ?_ ?_ ?_ hword ?_ ?_ ?_ rfl
      · exact fun j hj => Function.update_of_ne hj _ _
      · exact fun j hj w => mem_erase_other hj
      · exact fun j _ hjmem => absurd (mem_taken hjmem) (hnone j hcur)
      · intro x hx hx2
        obtain ⟨j, w⟩ := x
        cases hx2
        exact absurd (hperm.mem_iff.mpr (List.mem_cons_of_mem _ hx)) (hnone j hcur)
      · change s.writeOwner = first ∨ s.writeOwner = 0 ∨
          (s.holders.erase (k, false) ++ s.failed).any Prod.snd = true
        rw [← hany]
        exact hinv.owner
      · exact fun hk _ => absurd (mem_taken (List.mem_of_mem_erase hk)) (hnone k hcur)
    · rw [if_neg hcur]
      refine hinv.keep rfl (fun _ _ => rfl) rfl rfl rfl rfl rfl ?_ ⟨false, hmem⟩
      exact fun _ => Or.inr (hinv.reader_only hmem)

theorem at_rest_stands (h : pc.atRest = true) : pc.ownerStands = true := by
  cases pc with
  | granted usage current new => cases h
  | unlockSwap current new => cases h
  | _ => rfl

theorem pmem_lock_step {a : LockAction} (hinv : LockInv mapped first s) (hroom : s.roomy a)
    (h : s.step a = some t) : LockInv mapped first t := by
  cases a with
  | lock k usage =>
    obtain ⟨hrest, heq⟩ := Option.ite_none_right_eq_some.mp h
    cases heq
    have hstands := at_rest_stands hrest
    refine hinv.keep rfl ?_ rfl rfl rfl rfl rfl (fun _ => Or.inl hstands) ?_
    · exact fun j hj => Function.update_of_ne hj _ _
    · exact Function.update_self k false s.changed
  | unlock k =>
    obtain ⟨⟨hrest, hheld⟩, heq⟩ := Option.ite_none_right_eq_some.mp h
    cases heq
    have hstands := at_rest_stands hrest
    refine hinv.keep rfl ?_ rfl rfl rfl rfl rfl (fun _ => Or.inl hstands) hheld
    exact fun j hj => Function.update_of_ne hj _ _
  | advance k mmap =>
    change s.advance k mmap = some t at h
    have hok := hinv.pcs k
    unfold PmemHandle.advance at h
    cases hpc : s.pc k with
    | locking usage =>
      rw [hpc] at h
      cases h
      exact lock_load_inv hinv hpc
    | lockSwap usage current new =>
      rw [hpc] at h
      cases h
      refine swap_for_lock_inv hinv ?_ hpc
      rintro rfl
      exact hroom usage new hpc
    | granted usage current new =>
      rw [hpc] at h
      cases h
      exact store_owner_inv hinv hpc
    | testMapped usage current =>
      rw [hpc] at h
      cases h
      exact test_mapped_inv hinv hpc
    | atMapLock usage =>
      rw [hpc] at h hok
      obtain ⟨-, heq⟩ := Option.ite_none_right_eq_some.mp h
      cases heq
      refine hinv.keep rfl (fun _ _ => rfl) rfl rfl rfl rfl rfl (fun _ => Or.inl ?_) hok
      rw [hpc]
      rfl
    | inMapLock usage =>
      rw [hpc] at h hok
      cases h
      have hstands : (s.pc k).ownerStands = true := by
        rw [hpc]
        rfl
      split
      · exact hinv.goto hstands trivial goto_pc_ok
      · exact hinv.goto hstands hok goto_pc_ok
    | mapping usage =>
      rw [hpc] at h
      cases h
      exact gralloc_map_inv hinv hpc
    | markMapped usage =>
      rw [hpc] at h
      cases h
      exact mark_mapped_inv hinv hpc
    | leaveMapLock err =>
      rw [hpc] at h
      cases h
      refine hinv.keep rfl (fun _ _ => rfl) rfl rfl rfl rfl rfl (fun _ => Or.inl ?_) trivial
      rw [hpc]
      rfl
    | readBase err =>
      rw [hpc] at h
      cases h
      refine hinv.keep rfl (fun _ _ => rfl) rfl rfl rfl rfl rfl (fun _ => Or.inl ?_) trivial
      rw [hpc]
      rfl
    | unlocking =>
      rw [hpc] at h
      cases h
      exact unlock_load_inv hinv hpc
    | readOwner current =>
      rw [hpc] at h
      cases h
      exact read_owner_inv hinv hpc
    | clearOwner current =>
      rw [hpc] at h
      cases h
      exact clear_owner_inv hinv hpc
    | unlockSwap current new =>
      rw [hpc] at h
      cases h
      exact swap_for_unlock_inv hinv hpc
    | idle =>
      rw [hpc] at h
      cases h
    | busy =>
      rw [hpc] at h
      cases h
    | locked err vaddr =>
      rw [hpc] at h
      cases h
    | unlocked err =>
      rw [hpc] at h
      cases h

end Steps

theorem pmem_lock_run {s t : PmemHandle} {as : List LockAction} (hfresh : s.Fresh)
    (hroom : Meets PmemHandle.step PmemHandle.roomy s as)
    (h : run PmemHandle.step s as = some t) : LockInv (isMapped s.lockState) s.writeOwner t :=
  run_induction_of_meets (fun _ _ _ hinv hroom hstep => pmem_lock_step hinv hroom hstep)
    hfresh.inv hroom h

/-- The word of a buffer that nobody holds: only `LOCK_STATE_MAPPED` may have been added. -/
theorem LockInv.word_unlocked {s t : PmemHandle} (hinv : LockInv (isMapped s.lockState) s.writeOwner t)
    (hfresh : s.Fresh) (htaken : t.taken = []) :
    t.lockState = if t.mappings = 0 then s.lockState else s.lockState ||| lockStateMapped := by
  have hstart : Word s.lockState false (isMapped s.lockState) 0 := ⟨hfresh.write, rfl, hfresh.count⟩
  have hword := hinv.word
  rw [htaken] at hword
  by_cases hnone : t.mappings = 0
  · rw [if_pos hnone]
    rw [hnone, decide_eq_false (Nat.lt_irrefl 0), Bool.or_false] at hword
    exact hword.unique hstart
  · rw [if_neg hnone]
    rw [decide_eq_true (Nat.pos_of_ne_zero hnone), Bool.or_true] at hword
    exact hword.unique hstart.set_mapped

/-- What threads that lock and unlock a pmem buffer may rely on, as long as the count has room. -/
structure PmemHandle.Shared (s t : PmemHandle) : Prop where
  exclusive : ∀ k, (k, true) ∈ t.holders → t.holders = [(k, true)]
  counted : t.failed = [] → readCount t.lockState = t.holders.length
  restored : t.failed = [] → t.holders = [] →
    (t.writeOwner = s.writeOwner ∨ t.writeOwner = 0) ∧
      t.lockState = if t.mappings = 0 then s.lockState else s.lockState ||| lockStateMapped
  busy : ∀ k, t.pc k = .busy → t.changed k = false
  unlocked : ∀ k err, t.pc k = .unlocked err → err = 0

theorem pmem_lock_is_shared {s t : PmemHandle} {as : List LockAction} (hfresh : s.Fresh)
    (hroom : Meets PmemHandle.step PmemHandle.roomy s as)
    (h : run PmemHandle.step s as = some t) : s.Shared t := by
  have hinv := pmem_lock_run hfresh hroom h
  have hnofail : t.failed = [] → t.taken = t.holders := by
    intro hfailed
    rw [PmemHandle.taken, hfailed]
    exact List.append_nil t.holders
  refine ⟨?_, ?_, ?_, ?_, ?_⟩
  · intro k hk
    have hsingle := hinv.alone _ (mem_taken hk) rfl
    rcases List.append_eq_singleton_iff.mp hsingle with ⟨hnil, -⟩ | ⟨hone, -⟩
    · rw [hnil] at hk
      exact absurd hk List.not_mem_nil
    · exact hone
  · intro hfailed
    rw [hinv.word.count, hnofail hfailed]
  · intro hfailed hholders
    have htaken : t.taken = [] := (hnofail hfailed).trans hholders
    refine ⟨hinv.owner.imp_right fun howner => howner.resolve_right ?_,
      hinv.word_unlocked hfresh htaken⟩
    rw [htaken]
    exact Bool.false_ne_true
  · intro k hpc
    have hok := hinv.pcs k
    rwa [hpc] at hok
  · intro k err hpc
    have hok := hinv.pcs k
    rwa [hpc] at hok

/-- A handle that comes from another process is reset, and one that is new is mapped. -/
theorem fresh_of_register {v : BitVec 32} {owner base offset : Nat} {framebuffer : Bool} :
    ((PmemHandle.start v owner base offset framebuffer).registerBuffer false).Fresh where
  write := show lockedForWrite 0 = false by decide
  count := show readCount 0 = 0 by decide
  rest := fun _ => rfl
  holders := rfl
  failed := rfl
  mappings := rfl

theorem fresh_of_alloc {owner base offset : Nat} {framebuffer : Bool} :
    (PmemHandle.start lockStateMapped owner base offset framebuffer).Fresh where
  write := show lockedForWrite lockStateMapped = false by decide
  count := show readCount lockStateMapped = 0 by decide
  rest := fun _ => rfl
  holders := rfl
  failed := rfl
  mappings := rfl

theorem roomy_of_length {s : PmemHandle} (a : LockAction) (h : s.taken.length + 1 < 2 ^ 30) :
    s.roomy a := by
  cases a with
  | advance k mmap => exact fun _ _ _ => h
  | lock k usage => trivial
  | unlock k => trivial

def softwareRead : Usage := ⟨true, false, false, false, false, false, false, false⟩
def textureRead : Usage := ⟨false, false, true, false, false, false, false, false⟩
def renderTarget : Usage := ⟨false, false, false, true, false, false, false, false⟩

/-- Two readers, one of them with software, and a writer that comes too early. -/
def sampleLocks : List LockAction :=
  [.lock 0 softwareRead, .lock 1 textureRead] ++ List.replicate 10 (.advance 0 (.ok 4096)) ++
    List.replicate 4 (.advance 1 (.ok 0)) ++ [.lock 2 renderTarget, .advance 2 (.ok 0)]

theorem pmem_lock_is_shared_sample :
    ∃ t, run PmemHandle.step ((PmemHandle.start 7 9 0 0 false).registerBuffer false) sampleLocks =
      some t ∧ t.holders = [(1, false), (0, false)] ∧ t.pc 2 = .busy ∧
      ((PmemHandle.start 7 9 0 0 false).registerBuffer false).Shared t := by
  have hrun : ∃ t, run PmemHandle.step ((PmemHandle.start 7 9 0 0 false).registerBuffer false)
      sampleLocks = some t ∧ t.holders = [(1, false), (0, false)] ∧ t.pc 2 = .busy :=
    ⟨_, rfl, rfl, rfl⟩
  obtain ⟨t, hrun, hholders, hpc⟩ := hrun
  have hshort : Meets PmemHandle.step (fun s _ => s.taken.length + 1 < 2 ^ 30)
      ((PmemHandle.start 7 9 0 0 false).registerBuffer false) sampleLocks := by decide
  exact ⟨t, hrun, hholders, hpc, pmem_lock_is_shared fresh_of_register
    (hshort.imp fun _ a h => roomy_of_length a h) hrun⟩

section Overflow
variable {s : PmemHandle} {k : Nat} {usage : Usage} {new : BitVec 32}

theorem advance_goto (s : PmemHandle) (k : Nat) (pc : LockPc) : (s.goto k pc).pc k = pc :=
  Function.update_self ..

theorem swap_granted {current : BitVec 32} (hpc : s.pc k = .lockSwap usage current new)
    (hcur : s.lockState = current) :
    ∃ t, s.step (.advance k (.ok 0)) = some t ∧ t.lockState = new ∧
      t.holders = (k, usage.forWrite) :: s.holders ∧ t.failed = s.failed ∧
      t.pc = Function.update s.pc k (.granted usage current new) := by
  have hstep : s.step (.advance k (.ok 0)) = some (s.swapForLock k usage current new) := by
    simp only [PmemHandle.step, PmemHandle.advance, hpc]
  rw [PmemHandle.swapForLock, if_pos hcur] at hstep
  exact ⟨_, hstep, rfl, rfl, rfl, rfl⟩

theorem lock_granted (hrest : (s.pc k).atRest = true) (hwrite : lockedForWrite s.lockState = false)
    (hfree : ¬ (readCount s.lockState ≠ 0 ∧ usage.forWrite))
    (hnew : (if usage.forWrite then s.lockState ||| lockStateWrite else s.lockState) + 1 = new) :
    ∃ t, run PmemHandle.step s [.lock k usage, .advance k (.ok 0), .advance k (.ok 0)] = some t ∧
      t.lockState = new ∧ t.holders = (k, usage.forWrite) :: s.holders ∧ t.failed = s.failed ∧
      t.pc = Function.update s.pc k (.granted usage s.lockState new) := by
  have hcall : s.step (.lock k usage) =
      some ({ s with changed := Function.update s.changed k false }.goto k (.locking usage)) :=
    if_pos hrest
  have hload : ({ s with changed := Function.update s.changed k false }.goto k (.locking usage)).step
      (.advance k (.ok 0)) = some (({ s with
        changed := Function.update s.changed k false }.goto k (.locking usage)).goto k
          (.lockSwap usage s.lockState new)) := by
    simp only [PmemHandle.step, PmemHandle.advance, advance_goto]
    rw [PmemHandle.lockLoad]
    change some (if lockedForWrite s.lockState = true then _
      else if readCount s.lockState ≠ 0 ∧ usage.forWrite = true then _ else _) = _
    rw [hwrite, if_neg Bool.false_ne_true, if_neg hfree, ← hnew]
    rfl
  obtain ⟨t, hswap, hstate, hholders, hfailed, hpc⟩ := swap_granted (k := k) (advance_goto
    ({ s with changed := Function.update s.changed k false }.goto k (.locking usage)) k
    (.lockSwap usage s.lockState new)) rfl
  refine ⟨t, run_cons_eq_some.mpr ⟨_, hcall, run_cons_eq_some.mpr ⟨_, hload,
    run_cons_eq_some.mpr ⟨_, hswap, rfl⟩⟩⟩, hstate, hholders, hfailed, hpc.trans ?_⟩
  change Function.update (Function.update (Function.update s.pc k _) k _) k _ = _
  rw [Function.update_idem, Function.update_idem]

/-- A lock for reading by the hardware, from its call to its return. -/
theorem read_lock (hrest : (s.pc k).atRest = true) (hwrite : lockedForWrite s.lockState = false)
    (hread : usage.forWrite = false) (hhardware : usage.software = false)
    (hnew : lockedForWrite (s.lockState + 1) = false) :
    ∃ as t, run PmemHandle.step s as = some t ∧ t.lockState = s.lockState + 1 ∧
      t.holders = (k, false) :: s.holders ∧ t.failed = s.failed ∧
      t.pc = Function.update s.pc k (.locked 0 none) := by
  have hfree : ¬ (readCount s.lockState ≠ 0 ∧ usage.forWrite) := by
    rw [hread]
    exact fun h => Bool.false_ne_true h.2
  have hword : (if usage.forWrite then s.lockState ||| lockStateWrite else s.lockState) + 1 =
      s.lockState + 1 := by
    rw [hread, if_neg Bool.false_ne_true]
  obtain ⟨t, hrun, hstate, hholders, hfailed, hpc⟩ := lock_granted hrest hwrite hfree hword
  rw [hread] at hholders
  have hstore : t.step (.advance k (.ok 0)) = some (t.goto k (.testMapped usage s.lockState)) := by
    simp only [PmemHandle.step, PmemHandle.advance, hpc, Function.update_self]
    rw [PmemHandle.storeOwner, hnew, if_neg Bool.false_ne_true]
  have htest : (t.goto k (.testMapped usage s.lockState)).step (.advance k (.ok 0)) =
      some ((t.goto k (.testMapped usage s.lockState)).goto k (.locked 0 none)) := by
    simp only [PmemHandle.step, PmemHandle.advance, advance_goto]
    rw [PmemHandle.testMapped, hhardware, if_neg Bool.false_ne_true]
  refine ⟨_, _, run_snoc (run_snoc hrun hstore) htest, hstate, hholders, hfailed, ?_⟩
  change Function.update (Function.update t.pc k _) k _ = _
  rw [hpc, Function.update_idem, Function.update_idem]

/-- As many locks for reading as the count of 30 bits cannot hold. -/
theorem many_read_locks (n : Nat) (hn : n ≤ 2 ^ 30) :
    ∃ as t, run PmemHandle.step (.start 0 0 0 0 false) as = some t ∧ t.lockState = BitVec.ofNat 32 n ∧
      t.holders = List.replicate n (0, false) ∧ t.failed = [] ∧ (t.pc 0).atRest = true ∧
      t.pc 1 = .idle := by
  induction n with
  | zero => exact ⟨[], _, rfl, rfl, rfl, rfl, rfl, rfl⟩
  | succ n ih =>
    obtain ⟨as, s, hrun, hstate, hholders, hfailed, hrest, hidle⟩ := ih (Nat.le_of_succ_le hn)
    have hsmall : ∀ m ≤ 2 ^ 30, lockedForWrite (BitVec.ofNat 32 m) = false := by
      intro m hm
      rw [locked_for_write_eq, bit_eq, BitVec.toNat_ofNat, decide_eq_false_iff_not]
      omega
    have hnext : s.lockState + 1 = BitVec.ofNat 32 (n + 1) := by
      rw [hstate, BitVec.ofNat_add]
      rfl
    obtain ⟨bs, t, hmore, hstate', hholders', hfailed', hpc'⟩ :=
      @read_lock s 0 textureRead hrest (by rw [hstate]; exact hsmall n (Nat.le_of_succ_le hn)) rfl rfl
        (by rw [hnext]; exact hsmall (n + 1) hn)
    refine ⟨as ++ bs, t, ?_, hstate'.trans hnext, ?_, hfailed'.trans hfailed, ?_, ?_⟩
    · rw [run_append, hrun]
      exact hmore
    · rw [hholders', hholders, List.replicate_succ]
    · rw [hpc', Function.update_self]
      rfl
    · rw [hpc', Function.update_of_ne (by decide)]
      exact hidle

end Overflow

/-- A software lock that is released leaves the buffer mapped; and a lock for write is granted
beside `2 ^ 30` locks for reading, which the count no longer shows. -/
theorem lock_state_not_restored :
    (∃ t, run PmemHandle.step (.start 0 0 0 0 false)
        ([.lock 0 softwareRead] ++ List.replicate 10 (.advance 0 (.ok 4096)) ++ [.unlock 0] ++
          List.replicate 2 (.advance 0 (.ok 0))) = some t ∧
      t.pc 0 = .unlocked 0 ∧ t.holders = [] ∧ t.lockState = lockStateMapped) ∧
    ∃ as t, run PmemHandle.step (.start 0 0 0 0 false) as = some t ∧ t.failed = [] ∧
      (1, true) ∈ t.holders ∧ (0, false) ∈ t.holders := by
  refine ⟨⟨_, rfl, rfl, rfl, rfl⟩, ?_⟩
  obtain ⟨as, s, hrun, hstate, hholders, hfailed, -, hidle⟩ := many_read_locks (2 ^ 30) (Nat.le_refl _)
  have hrest : (s.pc 1).atRest = true := by
    rw [hidle]
    rfl
  have hempty : readCount s.lockState = 0 := by
    rw [hstate]
    decide
  obtain ⟨t, hmore, -, hholders', hfailed', -⟩ := @lock_granted s 1 renderTarget _ hrest
    (by rw [hstate]; decide) (fun hbusy => hbusy.1 hempty) rfl
  have hboth := @run_append _ _ PmemHandle.step (.start 0 0 0 0 false) as
    [.lock 1 renderTarget, .advance 1 (.ok 0), .advance 1 (.ok 0)]
  rw [hrun] at hboth
  refine ⟨_, t, hboth.trans hmore, hfailed'.trans hfailed, ?_, ?_⟩
  · rw [hholders']
    exact List.mem_cons_self
  · rw [hholders', hholders]
    exact List.mem_cons_of_mem _ (List.mem_replicate.mpr ⟨by decide, rfl⟩)

end Codinalte.Gralloc
