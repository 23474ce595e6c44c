import Codinalte.Gralloc.FbPost
import Mathlib.Algebra.Group.Nat.Defs

/-! What is locked on behalf of the framebuffer while every lock that a post asks for is taken. -/

namespace Codinalte.Gralloc
open Codinalte.Machine

/-- A lock can be taken: the count has room, and nobody else is in the way. -/
def PostHandle.Takes (h : PostHandle) (locks : Nat) (usage : Usage) (outcome : PostOutcome) :
    Prop :=
  locks + 1 < 2 ^ 30 ∧
    match h.kind with
    | .framebuffer | .pmem =>
      lockedForWrite h.lockState = false ∧ (usage.forWrite = true → readCount h.lockState = 0)
    | .hwmem => outcome.hwmem = true
    | .wrapper => True
    | .invalid => False

instance (h : PostHandle) (locks : Nat) (usage : Usage) (outcome : PostOutcome) :
    Decidable (h.Takes locks usage outcome) := by
  unfold PostHandle.Takes
  cases h.kind <;> infer_instance

namespace Poster

/-- Every lock that a post asks for is taken, and other clients do not overflow a count. -/
def Granted (s : Poster) : PostAction → Prop
  | .advance outcome =>
    match s.pc with
    | .lockPosted buffer =>
      (s.handle buffer).Takes (s.holders buffer).length lockedForPost outcome
    | .copyLockFramebuffer _ =>
      (s.handle s.framebuffer).Takes (s.holders s.framebuffer).length swWriteRarely outcome
    | .copyLock buffer =>
      (s.handle buffer).Takes (s.holders buffer).length swReadRarely outcome
    | _ => True
  | .lock _ buffer _ _ => (s.holders buffer).length + 1 < 2 ^ 30
  | _ => True

instance (s : Poster) (action : PostAction) : Decidable (s.Granted action) := by
  unfold Granted
  cases action with
  | advance outcome => cases s.pc <;> infer_instance
  | _ => infer_instance

/-- Nothing is locked, and the framebuffer is mapped. -/
structure Fresh (s : Poster) : Prop where
  pc : s.pc = .idle
  currentBuffer : s.currentBuffer = none
  holders : ∀ buffer, s.holders buffer = []
  stolen : s.stolen = false
  framebuffer : (s.handle s.framebuffer).kind = .pmem
  word : ∀ buffer, lockedForWrite (s.handle buffer).lockState = false ∧
    readCount (s.handle buffer).lockState = 0
  lockCnt : ∀ buffer, (s.handle buffer).lockCnt = 0

/-- The buffer that is recorded as current is locked once by the posts, no other is, and no post has
released a lock of somebody else. -/
structure Matched (s : Poster) : Prop where
  once : ∀ buffer, (s.holders buffer).countP (·.1 = .fbPost) =
    if s.currentBuffer = some buffer then 1 else 0
  counted : ∀ buffer, (s.handle buffer).kind = .framebuffer ∨ (s.handle buffer).kind = .pmem →
    readCount (s.handle buffer).lockState = (s.holders buffer).length
  stolen : s.stolen = false

end Poster

/-- The locks of a handle are those that its fields say. -/
def PostHandle.Counts (h : PostHandle) (threadOf : Client → Nat) (holders : List (Client × Bool)) :
    Prop :=
  match h.kind with
  | .framebuffer | .pmem =>
    (∃ mapped, Word h.lockState (holders.any Prod.snd) mapped holders.length) ∧
      ∀ hold ∈ holders, hold.2 = true → holders = [hold] ∧
        h.writeOwner = gettid (threadOf hold.1)
  | .hwmem => h.lockCnt = holders.length
  | .wrapper | .invalid => holders = []

section Handle
variable {h h' : PostHandle} {threadOf : Client → Nat} {holders : List (Client × Bool)}
  {client : Client} {usage : Usage} {outcome : PostOutcome}

theorem lock_pmem_counts {mapped m : Bool}
    (hword : Word h.lockState (holders.any Prod.snd) m holders.length)
    (hroom : holders.length + 1 < 2 ^ 30)
    (hlock : h.lockPmem (threadOf client) usage mapped = some h') :
    h'.kind = h.kind ∧
      (∃ m, Word h'.lockState (((client, usage.forWrite) :: holders).any Prod.snd) m
        (holders.length + 1)) ∧
      ∀ hold ∈ (client, usage.forWrite) :: holders, hold.2 = true →
        (client, usage.forWrite) :: holders = [hold] ∧
          h'.writeOwner = gettid (threadOf hold.1) := by
  unfold PostHandle.lockPmem at hlock
  dsimp only at hlock
  split at hlock
  · cases hlock
  next hunlocked =>
    have hnone : holders.any Prod.snd = false := by
      rw [← hword.write]
      exact Bool.eq_false_iff.mpr hunlocked
    split at hlock
    · cases hlock
    next hfree =>
      obtain rfl := Option.some.inj hlock
      rw [hnone] at hword
      have hset : Word (if usage.forWrite then h.lockState ||| lockStateWrite else h.lockState)
          usage.forWrite m holders.length := by
        cases husage : usage.forWrite with
        | false => exact hword
        | true => exact hword.set_write
      have hadd := hset.add_one hroom
      have hany : ((client, usage.forWrite) :: holders).any Prod.snd = usage.forWrite := by
        rw [List.any_cons, hnone, Bool.or_false]
      refine ⟨rfl, ?_, ?_⟩
      · rw [hany]
        dsimp only
        split
        · exact ⟨true, hadd.set_mapped⟩
        · exact ⟨m, hadd⟩
      · intro hold hmem hwrite
        rcases List.mem_cons.mp hmem with rfl | hmem
        · have hempty : holders = [] := by
            rw [← List.length_eq_zero_iff, ← hword.count]
            by_contra hne
            exact hfree ⟨hne, hwrite⟩
          refine ⟨by rw [hempty], ?_⟩
          dsimp only at hwrite ⊢
          rw [if_pos (hadd.write.trans hwrite)]
        · have hsome : holders.any Prod.snd = true := List.any_eq_true.mpr ⟨hold, hmem, hwrite⟩
          rw [hnone] at hsome
          cases hsome

/-- A lock that is taken is counted. -/
theorem lock_counts (hcounts : h.Counts threadOf holders) (hroom : holders.length + 1 < 2 ^ 30)
    (hlock : h.lock (threadOf client) usage outcome = some h') :
    h'.kind = h.kind ∧ h'.Counts threadOf ((client, usage.forWrite) :: holders) := by
  unfold PostHandle.lock at hlock
  unfold PostHandle.Counts at hcounts ⊢
  cases hkind : h.kind with
  | framebuffer | pmem =>
    rw [hkind] at hlock hcounts
    obtain ⟨⟨m, hword⟩, -⟩ := hcounts
    obtain ⟨hkind', hcounts'⟩ := lock_pmem_counts hword hroom hlock
    rw [hkind', hkind]
    exact ⟨rfl, hcounts'⟩
  | hwmem =>
    rw [hkind] at hlock hcounts
    obtain ⟨-, hsome⟩ := Option.ite_none_right_eq_some.mp hlock
    obtain rfl := Option.some.inj hsome
    exact ⟨rfl, congrArg (· + 1) hcounts⟩
  | wrapper | invalid =>
    rw [hkind] at hlock
    cases hlock

theorem unlock_pmem_counts {m : Bool} {hold : Client × Bool}
    (hword : Word h.lockState (holders.any Prod.snd) m holders.length)
    (halone : ∀ hold ∈ holders, hold.2 = true → holders = [hold] ∧
      h.writeOwner = gettid (threadOf hold.1)) (hmem : hold ∈ holders) :
    ∃ h', h.unlockPmem (threadOf hold.1) = (true, h') ∧ h'.kind = h.kind ∧
      (∃ m, Word h'.lockState ((holders.erase hold).any Prod.snd) m (holders.erase hold).length) ∧
      ∀ other ∈ holders.erase hold, other.2 = true → holders.erase hold = [other] ∧
        h'.writeOwner = gettid (threadOf other.1) := by
  obtain ⟨n, hn⟩ : ∃ n, holders.length = n + 1 :=
    Nat.exists_eq_add_one.mpr (List.length_pos_of_mem hmem)
  have hlength : (holders.erase hold).length = n := by
    rw [List.length_erase_of_mem hmem, hn]
    rfl
  rw [hn] at hword
  unfold PostHandle.unlockPmem
  dsimp only
  cases hany : holders.any Prod.snd with
  | false =>
    rw [hany] at hword
    have hnone : ∀ other ∈ holders, other.2 = false := fun other hother =>
      Bool.eq_false_iff.mpr fun hwrite =>
        absurd (List.any_eq_true.mpr ⟨other, hother, hwrite⟩) (by rw [hany]; decide)
    have hcount : readCount h.lockState ≠ 0 := by
      rw [hword.count]
      exact Nat.succ_ne_zero n
    simp only [hword.write, Bool.false_and, Bool.false_eq_true, if_false]
    rw [if_neg hcount]
    refine ⟨_, rfl, rfl, ⟨m, ?_⟩, ?_⟩
    · have herase : (holders.erase hold).any Prod.snd = false :=
        List.any_eq_false.mpr fun other hother =>
          Bool.eq_false_iff.mp (hnone other (List.mem_of_mem_erase hother))
      rw [herase, hlength]
      exact hword.sub_one
    · intro other hother hwrite
      rw [hnone other (List.mem_of_mem_erase hother)] at hwrite
      cases hwrite
  | true =>
    rw [hany] at hword
    obtain ⟨writer, hwriter, hwrite⟩ := List.any_eq_true.mp hany
    obtain ⟨hsingle, howner⟩ := halone writer hwriter hwrite
    obtain rfl : hold = writer := by
      rw [hsingle] at hmem
      exact List.mem_singleton.mp hmem
    have hempty : holders.erase hold = [] := by
      rw [hsingle, List.erase_cons_head]
    have hclear := hword.clear_write
    have hcount : readCount (h.lockState &&& ~~~lockStateWrite) ≠ 0 := by
      rw [hclear.count]
      exact Nat.succ_ne_zero n
    have hzero : n = 0 := by
      rw [← hlength, hempty]
      rfl
    simp only [hword.write, howner, beq_self_eq_true, Bool.true_and, if_true]
    rw [if_neg hcount, hempty]
    refine ⟨_, rfl, rfl, ⟨m, ?_⟩, fun _ h => absurd h List.not_mem_nil⟩
    subst hzero
    exact hclear.sub_one

/-- A lock that is held can be released, and is not counted any more. -/
theorem unlock_counts {hold : Client × Bool} (hcounts : h.Counts threadOf holders)
    (hmem : hold ∈ holders) :
    ∃ h', h.unlock (threadOf hold.1) = (true, h') ∧ h'.kind = h.kind ∧
      h'.Counts threadOf (holders.erase hold) := by
  unfold PostHandle.unlock
  unfold PostHandle.Counts at hcounts ⊢
  cases hkind : h.kind with
  | framebuffer | pmem =>
    rw [hkind] at hcounts
    obtain ⟨⟨m, hword⟩, halone⟩ := hcounts
    obtain ⟨h', hunlock, hkind', hcounts'⟩ := unlock_pmem_counts hword halone hmem
    refine ⟨h', hunlock, hkind'.trans hkind, ?_⟩
    rw [hkind', hkind]
    exact hcounts'
  | hwmem =>
    rw [hkind] at hcounts
    have hlength : h.lockCnt = holders.length := hcounts
    have hpos := List.length_pos_of_mem hmem
    refine ⟨_, Prod.ext (bne_iff_ne.mpr (show h.lockCnt ≠ 0 by omega)) rfl, rfl, ?_⟩
    dsimp only
    rw [List.length_erase_of_mem hmem, hlength]
  | wrapper | invalid =>
    rw [hkind] at hcounts
    rw [hcounts] at hmem
    cases hmem

end Handle

namespace Poster

/-- The locks that the posts hold on a buffer. -/
def own (s : Poster) (buffer : Nat) : List (Client × Bool) :=
  (s.holders buffer).filter (·.1 = .fbPost)

/-- The locks that the posts should hold. -/
def expected (s : Poster) (buffer : Nat) : List (Client × Bool) :=
  match s.pc with
  | .idle | .release _ => if s.currentBuffer = some buffer then [(.fbPost, false)] else []
  | .lockPosted _ | .copyLockFramebuffer _ => []
  | .send posted => if buffer = posted then [(.fbPost, false)] else []
  | .copyLock _ | .copyUnlockFramebuffer =>
    if buffer = s.framebuffer then [(.fbPost, true)] else []
  | .copyUnlock copied =>
    if buffer = s.framebuffer then [(.fbPost, true)]
    else if buffer = copied ∧ (s.handle copied).kind ≠ .wrapper then [(.fbPost, false)] else []

/-- What is known where a post is. -/
def PcOk (s : Poster) : Prop :=
  match s.pc with
  | .idle => True
  | .release buffer => (s.handle buffer).kind ≠ .invalid
  | .lockPosted buffer => s.currentBuffer = none ∧ (s.handle buffer).kind = .framebuffer
  | .copyUnlock buffer => s.currentBuffer = none ∧ buffer ≠ s.framebuffer
  | .send _ | .copyLockFramebuffer _ | .copyLock _ | .copyUnlockFramebuffer =>
    s.currentBuffer = none

structure Inv (s : Poster) : Prop where
  counts : ∀ buffer, (s.handle buffer).Counts s.threadOf (s.holders buffer)
  framebuffer : (s.handle s.framebuffer).kind = .pmem
  own : ∀ buffer, s.own buffer = s.expected buffer
  pc : s.PcOk
  stolen : s.stolen = false

section Steps
variable {s : Poster} {client : Client} {buffer : Nat} {usage : Usage} {outcome : PostOutcome}

structure Same (s t : Poster) : Prop where
  kind : ∀ buffer, (t.handle buffer).kind = (s.handle buffer).kind
  framebuffer : t.framebuffer = s.framebuffer
  thread : t.thread = s.thread
  stolen : t.stolen = s.stolen

/-- What a lock or an unlock leaves as it is. -/
structure Kept (s t : Poster) : Prop extends Same s t where
  currentBuffer : t.currentBuffer = s.currentBuffer
  pc : t.pc = s.pc

theorem threadOf_congr {t : Poster} (h : t.thread = s.thread) : t.threadOf = s.threadOf := by
  funext client
  cases client with
  | fbPost => exact h
  | other thread => rfl

/-- A lock, if it is taken, is one more lock of its client. -/
theorem lock_by_cases (hcounts : ∀ buffer, (s.handle buffer).Counts s.threadOf (s.holders buffer))
    (hroom : (s.holders buffer).length + 1 < 2 ^ 30) :
    Kept s (s.lockBy client buffer usage outcome) ∧
      (∀ other, ((s.lockBy client buffer usage outcome).handle other).Counts s.threadOf
        ((s.lockBy client buffer usage outcome).holders other)) ∧
      (s.lockBy client buffer usage outcome).holders =
        if ((s.handle buffer).lock (s.threadOf client) usage outcome).isSome then
          Function.update s.holders buffer ((client, usage.forWrite) :: s.holders buffer)
        else s.holders := by
  unfold lockBy
  cases hlock : (s.handle buffer).lock (s.threadOf client) usage outcome with
  | none => exact ⟨⟨⟨fun _ => rfl, rfl, rfl, rfl⟩, rfl, rfl⟩, hcounts, rfl⟩
  | some h =>
    obtain ⟨hkind, hcounts'⟩ := lock_counts (hcounts buffer) hroom hlock
    refine ⟨⟨⟨?_, rfl, rfl, rfl⟩, rfl, rfl⟩, ?_, rfl⟩
    · intro other
      dsimp only
      by_cases hother : other = buffer
      · subst hother
        rw [Function.update_self]
        exact hkind
      · rw [Function.update_of_ne hother]
    · intro other
      dsimp only
      by_cases hother : other = buffer
      · subst hother
        rw [Function.update_self, Function.update_self]
        exact hcounts'
      · rw [Function.update_of_ne hother, Function.update_of_ne hother]
        exact hcounts other

/-- An unlock of a client that holds the buffer takes one of its locks away. -/
theorem unlock_by_held (hcounts : ∀ buffer, (s.handle buffer).Counts s.threadOf (s.holders buffer))
    {hold : Client × Bool} (hfind : (s.holders buffer).find? (·.1 = client) = some hold) :
    Kept s (s.unlockBy client buffer) ∧
      (∀ other, ((s.unlockBy client buffer).handle other).Counts s.threadOf
        ((s.unlockBy client buffer).holders other)) ∧
      (s.unlockBy client buffer).holders =
        Function.update s.holders buffer ((s.holders buffer).erase hold) := by
  have hclient : hold.1 = client := by
    have hfound := List.find?_some hfind
    exact of_decide_eq_true hfound
  obtain ⟨h, hunlock, hkind, hcounts'⟩ :=
    unlock_counts (hcounts buffer) (List.mem_of_find?_eq_some hfind)
  rw [hclient] at hunlock
  unfold unlockBy
  rw [hunlock]
  dsimp only
  rw [if_pos rfl, hfind]
  refine ⟨⟨⟨?_, rfl, rfl, rfl⟩, rfl, rfl⟩, ?_, rfl⟩
  · intro other
    dsimp only
    by_cases hother : other = buffer
    · subst hother
      rw [Function.update_self]
      exact hkind
    · rw [Function.update_of_ne hother]
  · intro other
    dsimp only
    by_cases hother : other = buffer
    · subst hother
      rw [Function.update_self, Function.update_self]
      exact hcounts'
    · rw [Function.update_of_ne hother, Function.update_of_ne hother]
      exact hcounts other

theorem own_cons {t : Poster} {hold : Client × Bool}
    (h : t.holders = Function.update s.holders buffer (hold :: s.holders buffer)) (other : Nat) :
    t.own other =
      if other = buffer ∧ hold.1 = .fbPost then hold :: s.own buffer else s.own other := by
  unfold own
  rw [h]
  by_cases hother : other = buffer
  · subst hother
    rw [Function.update_self, List.filter_cons]
    by_cases hhold : hold.1 = .fbPost
    · rw [if_pos (decide_eq_true hhold), if_pos ⟨rfl, hhold⟩]
    · rw [if_neg (mt of_decide_eq_true hhold), if_neg fun h => hhold h.2]
  · rw [Function.update_of_ne hother, if_neg fun h => hother h.1]

theorem own_erase {t : Poster} {hold : Client × Bool}
    (h : t.holders = Function.update s.holders buffer ((s.holders buffer).erase hold))
    (other : Nat) :
    t.own other = if other = buffer then (s.own buffer).erase hold else s.own other := by
  unfold own
  rw [h]
  by_cases hother : other = buffer
  · subst hother
    rw [Function.update_self, if_pos rfl, List.erase_filter]
  · rw [Function.update_of_ne hother, if_neg hother]

theorem find_own {hold : Client × Bool} {rest : List (Client × Bool)}
    (h : s.own buffer = hold :: rest) :
    (s.holders buffer).find? (·.1 = .fbPost) = some hold := by
  rw [← List.head?_filter]
  exact congrArg List.head? h

/-- A lock of the posts is released. -/
theorem unlock_by_own (hcounts : ∀ buffer, (s.handle buffer).Counts s.threadOf (s.holders buffer))
    {hold : Client × Bool} (hown : s.own buffer = [hold]) :
    Kept s (s.unlockBy .fbPost buffer) ∧
      (∀ other, ((s.unlockBy .fbPost buffer).handle other).Counts s.threadOf
        ((s.unlockBy .fbPost buffer).holders other)) ∧
      ∀ other, (s.unlockBy .fbPost buffer).own other =
        if other = buffer then [] else s.own other := by
  obtain ⟨hkept, hcounts', hholders⟩ := unlock_by_held hcounts (find_own hown)
  refine ⟨hkept, hcounts', fun other => ?_⟩
  rw [own_erase hholders, hown, List.erase_cons_head]

theorem takes_isSome (thread : Nat) {h : PostHandle} {locks : Nat}
    (htakes : h.Takes locks usage outcome) :
    (h.lock thread usage outcome).isSome = decide (h.kind ≠ .wrapper) := by
  obtain ⟨-, htakes⟩ := htakes
  unfold PostHandle.lock
  cases hkind : h.kind with
  | framebuffer | pmem =>
    rw [hkind] at htakes
    unfold PostHandle.lockPmem
    dsimp only
    rw [if_neg (Bool.eq_false_iff.mp htakes.1), if_neg fun h => h.1 (htakes.2 h.2)]
    rfl
  | hwmem =>
    rw [hkind] at htakes
    dsimp only at htakes ⊢
    rw [if_pos htakes]
    rfl
  | wrapper => rfl
  | invalid =>
    rw [hkind] at htakes
    exact htakes.elim

/-- A lock that a post asks for and takes. -/
theorem lock_by_own (hcounts : ∀ buffer, (s.handle buffer).Counts s.threadOf (s.holders buffer))
    (htakes : (s.handle buffer).Takes (s.holders buffer).length usage outcome) :
    Kept s (s.lockBy .fbPost buffer usage outcome) ∧
      (∀ other, ((s.lockBy .fbPost buffer usage outcome).handle other).Counts s.threadOf
        ((s.lockBy .fbPost buffer usage outcome).holders other)) ∧
      ∀ other, (s.lockBy .fbPost buffer usage outcome).own other =
        if other = buffer ∧ (s.handle buffer).kind ≠ .wrapper then
          (.fbPost, usage.forWrite) :: s.own buffer
        else s.own other := by
  obtain ⟨hkept, hcounts', hholders⟩ := lock_by_cases hcounts htakes.1
  refine ⟨hkept, hcounts', fun other => ?_⟩
  rw [takes_isSome (s.threadOf .fbPost) htakes] at hholders
  by_cases hkind : (s.handle buffer).kind ≠ .wrapper
  · rw [if_pos (decide_eq_true hkind)] at hholders
    rw [own_cons hholders]
    simp only [hkind, and_true, not_false_eq_true, ne_eq]
  · rw [if_neg (mt of_decide_eq_true hkind)] at hholders
    rw [if_neg fun h => hkind h.2]
    unfold own
    rw [hholders]

/-- The invariant after a step that counts its locks. -/
theorem Inv.next {t : Poster} (h : Inv s) (hsame : Same s t)
    (hcounts : ∀ buffer, (t.handle buffer).Counts s.threadOf (t.holders buffer))
    (hown : ∀ buffer, t.own buffer = t.expected buffer) (hpc : t.PcOk) : Inv t := by
  refine ⟨?_, ?_, hown, hpc, hsame.stolen.trans h.stolen⟩
  · rw [threadOf_congr hsame.thread]
    exact hcounts
  · rw [hsame.framebuffer, hsame.kind]
    exact h.framebuffer

/-- A call of another client leaves what the posts hold. -/
theorem Inv.other {t : Poster} (h : Inv s) (hkept : Kept s t)
    (hcounts : ∀ buffer, (t.handle buffer).Counts s.threadOf (t.holders buffer))
    (hown : ∀ buffer, t.own buffer = s.own buffer) : Inv t := by
  refine h.next hkept.toSame hcounts (fun buffer => ?_) ?_
  · rw [hown, h.own]
    unfold expected
    rw [hkept.pc, hkept.currentBuffer, hkept.framebuffer]
    simp only [hkept.kind]
  · have hpc := h.pc
    unfold PcOk at hpc ⊢
    rw [hkept.pc, hkept.currentBuffer, hkept.framebuffer]
    simp only [hkept.kind]
    exact hpc

theorem Same.refl (s : Poster) : Same s s := ⟨fun _ => rfl, rfl, rfl, rfl⟩

/-- Nothing is held by the posts once the buffer that was shown is released. -/
theorem release_current_spec {posted : Nat} (h : Inv s) (hpc : s.pc = .release posted) :
    Same s s.releaseCurrent ∧ s.releaseCurrent.currentBuffer = none ∧
      (∀ buffer, (s.releaseCurrent.handle buffer).Counts s.threadOf
        (s.releaseCurrent.holders buffer)) ∧
      ∀ buffer, s.releaseCurrent.own buffer = [] := by
  have hown : ∀ buffer, s.own buffer =
      if s.currentBuffer = some buffer then [(.fbPost, false)] else [] := by
    intro buffer
    rw [h.own]
    unfold expected
    rw [hpc]
  unfold releaseCurrent
  cases hcurrent : s.currentBuffer with
  | none =>
    refine ⟨Same.refl s, hcurrent, h.counts, fun buffer => ?_⟩
    rw [hown, hcurrent]
    rfl
  | some current =>
    have hheld : s.own current = [(.fbPost, false)] := by rw [hown, if_pos hcurrent]
    obtain ⟨hkept, hcounts, hown'⟩ := unlock_by_own h.counts hheld
    refine ⟨⟨hkept.kind, hkept.framebuffer, hkept.thread, hkept.stolen⟩, rfl, hcounts,
      fun buffer => ?_⟩
    refine (hown' buffer).trans ?_
    split
    · rfl
    · next hne =>
      rw [hown, hcurrent, if_neg fun h => hne (Option.some.inj h).symm]

theorem release_inv {posted : Nat} (h : Inv s) (hpc : s.pc = .release posted) {t : Poster}
    (hstep : s.advance outcome = some t) : Inv t := by
  obtain ⟨hsame, hcurrent, hcounts, hempty⟩ := release_current_spec h hpc
  unfold advance at hstep
  rw [hpc] at hstep
  obtain rfl := Option.some.inj hstep
  refine h.next ⟨hsame.kind, hsame.framebuffer, hsame.thread, hsame.stolen⟩ hcounts
    (fun buffer => ?_) ?_
  · refine (hempty buffer).trans ?_
    by_cases hkind : (s.handle posted).kind = .framebuffer
    · simp only [expected, if_pos hkind]
    · simp only [expected, if_neg hkind]
  · by_cases hkind : (s.handle posted).kind = .framebuffer
    · simp only [PcOk, if_pos hkind]
      exact ⟨hcurrent, (hsame.kind posted).trans hkind⟩
    · simp only [PcOk, if_neg hkind]
      exact hcurrent

theorem lock_posted_inv {posted : Nat} (h : Inv s) (hpc : s.pc = .lockPosted posted)
    (hgranted : s.Granted (.advance outcome)) {t : Poster} (hstep : s.advance outcome = some t) :
    Inv t := by
  have hown := h.own
  have hok := h.pc
  simp only [expected, hpc] at hown
  simp only [PcOk, hpc] at hok
  simp only [Granted, hpc] at hgranted
  simp only [advance, hpc, Option.some.injEq] at hstep
  subst hstep
  obtain ⟨hcurrent, hkind⟩ := hok
  obtain ⟨hkept, hcounts, hown'⟩ := lock_by_own h.counts hgranted
  refine h.next ⟨hkept.kind, hkept.framebuffer, hkept.thread, hkept.stolen⟩ hcounts
    (fun buffer => ?_) (hkept.currentBuffer.trans hcurrent)
  refine (hown' buffer).trans ?_
  rw [hown, hown, hkind]
  simp only [expected, ne_eq, reduceCtorEq, not_false_eq_true, and_true, lockedForPost,
    Usage.forWrite, Bool.or_self]

theorem send_inv {posted : Nat} (h : Inv s) (hpc : s.pc = .send posted) {t : Poster}
    (hstep : s.advance outcome = some t) : Inv t := by
  have hown := h.own
  simp only [expected, hpc] at hown
  simp only [advance, hpc, Option.some.injEq] at hstep
  subst hstep
  refine h.next ⟨fun _ => rfl, rfl, rfl, rfl⟩ h.counts (fun buffer => ?_) trivial
  refine (hown buffer).trans ?_
  simp only [expected, Option.some.injEq, eq_comm]

theorem copy_lock_framebuffer_inv {copied : Nat} (h : Inv s)
    (hpc : s.pc = .copyLockFramebuffer copied) (hgranted : s.Granted (.advance outcome))
    {t : Poster} (hstep : s.advance outcome = some t) : Inv t := by
  have hown := h.own
  have hok := h.pc
  simp only [expected, hpc] at hown
  simp only [PcOk, hpc] at hok
  simp only [Granted, hpc] at hgranted
  simp only [advance, hpc, Option.some.injEq] at hstep
  subst hstep
  obtain ⟨hkept, hcounts, hown'⟩ := lock_by_own h.counts hgranted
  refine h.next ⟨hkept.kind, hkept.framebuffer, hkept.thread, hkept.stolen⟩ hcounts
    (fun buffer => ?_) (hkept.currentBuffer.trans hok)
  refine (hown' buffer).trans ?_
  rw [hown, hown, h.framebuffer]
  simp only [expected, hkept.framebuffer]
  simp only [ne_eq, reduceCtorEq, not_false_eq_true, and_true, swWriteRarely, Usage.forWrite,
    Bool.or_false]

/-- A buffer that the posts hold for write is locked for write. -/
theorem Inv.locked_for_write (h : Inv s) (hheld : s.own s.framebuffer = [(.fbPost, true)]) :
    lockedForWrite (s.handle s.framebuffer).lockState = true := by
  have hcounts := h.counts s.framebuffer
  unfold PostHandle.Counts at hcounts
  rw [h.framebuffer] at hcounts
  obtain ⟨⟨m, hword⟩, -⟩ := hcounts
  rw [hword.write]
  exact List.any_eq_true.mpr ⟨_, List.mem_of_find?_eq_some (find_own hheld), rfl⟩

theorem copy_lock_inv {copied : Nat} (h : Inv s) (hpc : s.pc = .copyLock copied)
    (hgranted : s.Granted (.advance outcome)) {t : Poster} (hstep : s.advance outcome = some t) :
    Inv t := by
  have hown := h.own
  have hok := h.pc
  simp only [expected, hpc] at hown
  simp only [PcOk, hpc] at hok
  simp only [Granted, hpc] at hgranted
  simp only [advance, hpc, Option.some.injEq] at hstep
  subst hstep
  have hne : copied ≠ s.framebuffer := by
    rintro rfl
    have hlocked := h.locked_for_write ((hown _).trans (if_pos rfl))
    have htakes := hgranted.2
    rw [h.framebuffer] at htakes
    rw [htakes.1] at hlocked
    cases hlocked
  obtain ⟨hkept, hcounts, hown'⟩ := lock_by_own h.counts hgranted
  refine h.next ⟨hkept.kind, hkept.framebuffer, hkept.thread, hkept.stolen⟩ hcounts
    (fun buffer => ?_) ⟨hkept.currentBuffer.trans hok, hkept.framebuffer ▸ hne⟩
  refine (hown' buffer).trans ?_
  rw [hown, hown, if_neg hne]
  simp only [expected, hkept.framebuffer, hkept.kind]
  by_cases hbuffer : buffer = copied ∧ (s.handle copied).kind ≠ .wrapper
  · rw [if_pos hbuffer, if_neg (hbuffer.1 ▸ hne), if_pos hbuffer]
    rfl
  · rw [if_neg hbuffer, if_neg hbuffer]

/-- Nothing is unlocked with a handle that counts no locks. -/
theorem unlock_by_wrapper (client : Client) (hkind : (s.handle buffer).kind = .wrapper) :
    s.unlockBy client buffer = s := by
  unfold unlockBy PostHandle.unlock
  rw [hkind]
  dsimp only
  rw [if_neg Bool.false_ne_true, Function.update_eq_self]

theorem copy_unlock_inv {copied : Nat} (h : Inv s) (hpc : s.pc = .copyUnlock copied) {t : Poster}
    (hstep : s.advance outcome = some t) : Inv t := by
  have hown := h.own
  have hok := h.pc
  simp only [expected, hpc] at hown
  simp only [PcOk, hpc] at hok
  simp only [advance, hpc, Option.some.injEq] at hstep
  subst hstep
  obtain ⟨hcurrent, hne⟩ := hok
  by_cases hkind : (s.handle copied).kind = .wrapper
  · rw [unlock_by_wrapper .fbPost hkind]
    refine h.next ⟨fun _ => rfl, rfl, rfl, rfl⟩ h.counts (fun buffer => ?_) hcurrent
    refine (hown buffer).trans ?_
    simp only [expected, hkind, ne_eq, not_true, and_false, if_false]
  · have hheld : s.own copied = [(.fbPost, false)] := by
      rw [hown, if_neg hne, if_pos ⟨rfl, hkind⟩]
    obtain ⟨hkept, hcounts, hown'⟩ := unlock_by_own h.counts hheld
    refine h.next ⟨hkept.kind, hkept.framebuffer, hkept.thread, hkept.stolen⟩ hcounts
      (fun buffer => ?_) (hkept.currentBuffer.trans hcurrent)
    refine (hown' buffer).trans ?_
    rw [hown]
    simp only [expected, hkept.framebuffer]
    by_cases hbuffer : buffer = copied
    · rw [if_pos hbuffer, if_neg (hbuffer ▸ hne)]
    · simp only [hbuffer, false_and, if_false]

theorem copy_unlock_framebuffer_inv (h : Inv s) (hpc : s.pc = .copyUnlockFramebuffer) {t : Poster}
    (hstep : s.advance outcome = some t) : Inv t := by
  have hown := h.own
  have hok := h.pc
  simp only [expected, hpc] at hown
  simp only [PcOk, hpc] at hok
  simp only [advance, hpc, Option.some.injEq] at hstep
  subst hstep
  have hheld : s.own s.framebuffer = [(.fbPost, true)] := (hown _).trans (if_pos rfl)
  obtain ⟨hkept, hcounts, hown'⟩ := unlock_by_own h.counts hheld
  refine h.next ⟨hkept.kind, hkept.framebuffer, hkept.thread, hkept.stolen⟩ hcounts
    (fun buffer => ?_) trivial
  refine (hown' buffer).trans ?_
  rw [hown]
  simp only [expected, hkept.currentBuffer, hok]
  split
  · rfl
  · rfl

/-- Each call of a post that takes the locks it asks for. -/
theorem advance_inv (h : Inv s) (hgranted : s.Granted (.advance outcome)) {t : Poster}
    (hstep : s.advance outcome = some t) : Inv t := by
  cases hpc : s.pc with
  | idle =>
    unfold advance at hstep
    rw [hpc] at hstep
    cases hstep
  | release posted => exact release_inv h hpc hstep
  | lockPosted posted => exact lock_posted_inv h hpc hgranted hstep
  | send posted => exact send_inv h hpc hstep
  | copyLockFramebuffer copied => exact copy_lock_framebuffer_inv h hpc hgranted hstep
  | copyLock copied => exact copy_lock_inv h hpc hgranted hstep
  | copyUnlock copied => exact copy_unlock_inv h hpc hstep
  | copyUnlockFramebuffer => exact copy_unlock_framebuffer_inv h hpc hstep

theorem step_inv {action : PostAction} {t : Poster} (h : Inv s) (hgranted : s.Granted action)
    (hstep : s.step action = some t) : Inv t := by
  cases action with
  | post buffer =>
    obtain ⟨hidle, hstep⟩ := Option.ite_none_right_eq_some.mp hstep
    split at hstep
    · exact Option.some.inj hstep ▸ h
    · next hkind =>
      obtain rfl := Option.some.inj hstep
      have hown := h.own
      simp only [expected, hidle] at hown
      exact h.next ⟨fun _ => rfl, rfl, rfl, rfl⟩ h.counts hown hkind
  | advance outcome => exact advance_inv h hgranted hstep
  | lock thread buffer usage outcome =>
    obtain rfl := Option.some.inj hstep
    obtain ⟨hkept, hcounts, hholders⟩ := lock_by_cases h.counts hgranted
    refine h.other hkept hcounts fun other => ?_
    split at hholders
    · rw [own_cons hholders, if_neg fun h => Client.noConfusion h.2]
    · unfold own
      rw [hholders]
  | unlock thread buffer =>
    obtain ⟨hsome, hstep⟩ := Option.ite_none_right_eq_some.mp hstep
    obtain rfl := Option.some.inj hstep
    obtain ⟨hold, hfind⟩ := Option.isSome_iff_exists.mp hsome
    obtain ⟨hkept, hcounts, hholders⟩ := unlock_by_held h.counts hfind
    refine h.other hkept hcounts fun other => ?_
    rw [own_erase hholders]
    split
    · next hother =>
      have hfound := List.find?_some hfind
      have hclient : hold.1 = .other thread := of_decide_eq_true hfound
      rw [hother]
      refine List.erase_of_not_mem fun hmem => ?_
      have hposts := of_decide_eq_true (List.mem_filter.mp hmem).2
      rw [hclient] at hposts
      cases hposts
    · rfl

theorem Fresh.inv (h : s.Fresh) : Inv s := by
  refine ⟨fun buffer => ?_, h.framebuffer, fun buffer => ?_, ?_, h.stolen⟩
  · obtain ⟨hwrite, hcount⟩ := h.word buffer
    rw [h.holders]
    unfold PostHandle.Counts
    split
    · exact ⟨⟨_, hwrite, rfl, hcount⟩, fun _ hmem => absurd hmem List.not_mem_nil⟩
    · exact ⟨⟨_, hwrite, rfl, hcount⟩, fun _ hmem => absurd hmem List.not_mem_nil⟩
    · exact h.lockCnt buffer
    · rfl
    · rfl
  · unfold own expected
    rw [h.holders, h.pc, h.currentBuffer]
    rfl
  · unfold PcOk
    rw [h.pc]
    trivial

theorem Inv.matched (h : Inv s) (hpc : s.pc = .idle) : s.Matched := by
  refine ⟨fun buffer => ?_, fun buffer hkind => ?_, h.stolen⟩
  · have hown := h.own buffer
    simp only [expected, hpc] at hown
    rw [List.countP_eq_length_filter]
    refine (congrArg List.length hown).trans ?_
    split
    · rfl
    · rfl
  · have hcounts := h.counts buffer
    unfold PostHandle.Counts at hcounts
    rcases hkind with hkind | hkind
    · rw [hkind] at hcounts
      obtain ⟨⟨m, hword⟩, -⟩ := hcounts
      exact hword.count
    · rw [hkind] at hcounts
      obtain ⟨⟨m, hword⟩, -⟩ := hcounts
      exact hword.count

end Steps

/-- While every lock is granted, the posts hold one lock of the buffer that is current after each of
them and no other, and release none that they did not take. -/
theorem posts_hold_current {s t : Poster} {actions : List PostAction} (hfresh : s.Fresh)
    (hgranted : Meets Poster.step Poster.Granted s actions)
    (hrun : run Poster.step s actions = some t) :
    t.stolen = false ∧ (t.pc = .idle → t.Matched) := by
  have hinv : Inv t := run_induction_of_meets
    (fun _ _ _ hinv hgranted hstep => step_inv hinv hgranted hstep) hfresh.inv hgranted hrun
  exact ⟨hinv.stolen, hinv.matched⟩

/-- The handle 0 is the one of the mapping, 1 and 2 are buffers of the framebuffer, and the others
are hwmem buffers. -/
def sample : Poster where
  handle := fun buffer =>
    ⟨if buffer = 0 then .pmem else if buffer ≤ 2 then .framebuffer else .hwmem, 0, 0, 0⟩
  framebuffer := 0
  thread := 7
  currentBuffer := none
  pc := .idle
  holders := fun _ => []
  stolen := false

theorem fresh_sample : sample.Fresh :=
  ⟨rfl, rfl, fun _ => rfl, rfl, rfl,
    fun _ => show lockedForWrite 0 = false ∧ readCount 0 = 0 by decide, fun _ => rfl⟩

def allSucceed : PostOutcome := ⟨true, true, true⟩

/-- A buffer of the framebuffer is posted, read by another client, and followed by a copied buffer
and a buffer of the framebuffer that is not sent. -/
def samplePosts : List PostAction :=
  .post 1 :: List.replicate 3 (.advance allSucceed) ++ .lock 5 1 swReadRarely allSucceed ::
    .post 3 :: List.replicate 5 (.advance allSucceed) ++ .unlock 5 1 ::
    .post 2 :: List.replicate 3 (.advance ⟨true, true, false⟩)

theorem posts_hold_current_sample :
    ∃ t, run step sample samplePosts = some t ∧ t.currentBuffer = some 2 ∧ t.Matched := by
  have hrun : ∃ t, run step sample samplePosts = some t ∧ t.pc = .idle ∧ t.currentBuffer = some 2 :=
    ⟨_, rfl, rfl, rfl⟩
  obtain ⟨t, hrun, hidle, hcurrent⟩ := hrun
  have hgranted : Meets step Granted sample samplePosts := by decide
  exact ⟨t, hrun, hcurrent, (posts_hold_current fresh_sample hgranted hrun).2 hidle⟩

/-- A client renders to a buffer while it is posted: the buffer is current without a lock of the
post, and the next post releases the lock of the client. -/
theorem post_releases_lock_of_client :
    ∃ t u, run step sample (.lock 5 1 ⟨false, false, false, true, false, false, false, false⟩
        allSucceed :: .post 1 :: List.replicate 3 (.advance allSucceed)) = some t ∧
      t.pc = .idle ∧ t.currentBuffer = some 1 ∧ t.holders 1 = [(.other 5, true)] ∧ ¬ t.Matched ∧
      run step t [.post 2, .advance allSucceed] = some u ∧ u.stolen = true ∧ u.holders 1 = [] := by
  refine ⟨_, _, rfl, rfl, rfl, rfl, fun hmatched => ?_, rfl, rfl, rfl⟩
  exact absurd (hmatched.once 1) (by decide)

end Poster

end Codinalte.Gralloc
