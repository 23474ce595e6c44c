import Codinalte.Gralloc.BufferSpecs

/-! Every call of gralloc keeps the books of its buffer, and what follows for whole runs. -/

namespace Codinalte.Gralloc
open Codinalte.Machine Codinalte.Lease
variable {k : Kernel} {errno : Int} {buf : Nat} {h : BufHandle} {s t : ThreadGroup}

section Calls

theorem set_buffer_domain_error {left top width height e : Int}
    (herror : setBufferDomain k h left top width height = .error e) : 0 < e := by
  unfold setBufferDomain at herror
  dsimp only at herror
  split at herror
  · next e' hregion =>
    cases herror
    split_ifs at hregion
    rw [set_up_hwmem_region_error hregion]
    decide
  · split at herror
    · next e' hset =>
      cases herror
      exact e'.property
    · cases herror

/-- The result is zero where the counter was incremented; a full counter aside, nowhere else. -/
theorem lock_mapped_cases (errno : Int) (hwrapper : h.isWrapper = false)
    (left top width height : Int) :
    (∃ result, (result ≠ 0 ∨ s.full buf .lockCounter = true) ∧
      (lockMapped k errno buf h left top width height s = (result, s) ∨
        lockMapped k errno buf h left top width height s = (result, s.opened k))) ∨
    (s.full buf .lockCounter = false ∧ (s.opened k).mapCreated = true ∧
      lockMapped k errno buf h left top width height s =
        (0, (s.opened k).incremented buf .lockCounter)) := by
  unfold lockMapped
  cases hdomain : setBufferDomain k h left top width height with
  | error e =>
    have hpos := set_buffer_domain_error hdomain
    exact .inl ⟨-e, .inl (by omega), .inl rfl⟩
  | ok =>
    rcases @inc_buf_cases k buf h s errno hwrapper .lockCounter with ⟨e, hcause, heq⟩ |
      ⟨hfull, hcreated, heq⟩
    · refine .inl ⟨-e, ?_, .inr ?_⟩
      · rcases hcause with hpos | hfull
        · exact .inl (by omega)
        · exact .inr hfull
      · simp only [heq, returned]
    · refine .inr ⟨hfull, hcreated, ?_⟩
      simp only [heq, returned]

theorem wrapper_lock_mapped (hwrapper : h.isWrapper = true) (left top width height : Int) :
    (lockMapped k errno buf h left top width height s).2 = s := by
  unfold lockMapped
  cases setBufferDomain k h left top width height with
  | error e => rfl
  | ok =>
    unfold incBufCnt
    rw [hwrapper]
    rfl

/-- A lock for hardware use, or one without a place for the address, maps nothing. -/
theorem gralloc_lock_unmapped (usage : Usage) (left top width height : Int) (hasAddr : Bool)
    (hunmapped : usage.software = false ∨ hasAddr = false) :
    grallocLock k errno buf h usage left top width height hasAddr s = (-einval, none, s) ∨
    grallocLock k errno buf h usage left top width height hasAddr s =
      ((lockMapped k errno buf h left top width height s).1, none,
        (lockMapped k errno buf h left top width height s).2) := by
  unfold grallocLock
  cases hsoft : usage.software with
  | false => exact .inr rfl
  | true =>
    rcases hunmapped with hno | hno
    · rw [hsoft] at hno
      cases hno
    · rw [hno]
      exact .inl rfl

theorem gralloc_lock_software {usage : Usage} (hsoft : usage.software = true)
    (left top width height : Int) {result : Except Int (Nat × MmapProt)}
    (hmmap : mmapBufIfNecessary k buf h s = (result, t)) :
    (∃ e, result = .error e ∧
      grallocLock k errno buf h usage left top width height true s = (-e, none, t)) ∨
    (∃ addr mmapProt, result = .ok (addr, mmapProt) ∧
      (grallocLock k errno buf h usage left top width height true s = (-eacces, some addr, t) ∨
        grallocLock k errno buf h usage left top width height true s =
          ((lockMapped k errno buf h left top width height t).1, some addr,
            (lockMapped k errno buf h left top width height t).2))) := by
  unfold grallocLock
  rw [if_pos hsoft, if_neg (by decide), hmmap]
  cases result with
  | error e => exact .inl ⟨e, rfl, rfl⟩
  | ok mapping =>
    obtain ⟨addr, mmapProt⟩ := mapping
    refine .inr ⟨addr, mmapProt, rfl, ?_⟩
    dsimp only
    split_ifs
    · exact .inr rfl
    · exact .inl rfl

theorem wrapper_mmap (hwrapper : h.isWrapper = true) :
    (mmapBufIfNecessary k buf h s).2 = s := by
  unfold mmapBufIfNecessary
  rw [if_pos hwrapper]
  cases h.addr with
  | none => rfl
  | some addr => rfl

theorem wrapper_lock (hwrapper : h.isWrapper = true) (usage : Usage) (left top width height : Int)
    (hasAddr : Bool) :
    (grallocLock k errno buf h usage left top width height hasAddr s).2.2 = s := by
  have hlock := @wrapper_lock_mapped k errno buf h s hwrapper left top width height
  have hmmap := @wrapper_mmap k buf h s hwrapper
  by_cases hunmapped : usage.software = false ∨ hasAddr = false
  · rcases @gralloc_lock_unmapped k errno buf h s usage left top width height hasAddr hunmapped with
      heq | heq
    · rw [heq]
    · rw [heq]
      exact hlock
  · obtain ⟨hsoft, haddr⟩ := not_or.mp hunmapped
    rw [Bool.not_eq_false] at hsoft haddr
    have hpair : mmapBufIfNecessary k buf h s = ((mmapBufIfNecessary k buf h s).1, s) :=
      Prod.ext rfl hmmap
    subst haddr
    rcases @gralloc_lock_software k errno buf h s s usage hsoft left top width height _ hpair with
      ⟨e, -, heq⟩ | ⟨addr, mmapProt, -, heq | heq⟩
    · rw [heq]
    · rw [heq]
    · rw [heq]
      exact hlock

theorem gralloc_alloc_cases (width height : Int) (format : PixelFormat) (usage : Usage)
    (allocFramebuffer : Except Errno Bool) :
    (∃ result, grallocAlloc k errno buf width height format usage allocFramebuffer s =
      (result, s)) ∨
    (∃ result, grallocAlloc k errno buf width height format usage allocFramebuffer s =
      (result, s.opened k)) ∨
    (∃ h : BufHandle, (∃ bytes actualWidth actualHeight,
        calcBufSize width height format usage = .ok (bytes, actualWidth, actualHeight) ∧
        h = newBufHandle actualWidth actualHeight format (allocUsage format usage)) ∧
      h.isWrapper = false ∧ (s.opened k).mapCreated = true ∧
      grallocAlloc k errno buf width height format usage allocFramebuffer s =
        (0, { (s.opened k).incremented buf .registerCounter with
          handle := Function.update s.handle buf (some h) })) := by
  unfold grallocAlloc
  cases hcalc : calcBufSize width height format usage with
  | error e => exact .inl ⟨_, rfl⟩
  | ok size =>
    obtain ⟨bytes, actualWidth, actualHeight⟩ := size
    dsimp only
    cases (if usage.hwFb = true then allocFramebuffer else .ok false) with
    | error e => exact .inl ⟨_, rfl⟩
    | ok handled =>
      cases handled with
      | true => exact .inl ⟨_, rfl⟩
      | false =>
        cases k.openHwmem with
        | error e => exact .inl ⟨_, rfl⟩
        | ok =>
          cases k.allocFd with
          | error e => exact .inl ⟨_, rfl⟩
          | ok =>
            dsimp only
            split_ifs
            · have hnew : (newBufHandle actualWidth actualHeight format
                  (allocUsage format usage)).isWrapper = false := rfl
              rcases @inc_buf_cases k buf _ s errno hnew .registerCounter with ⟨e, -, heq⟩ |
                ⟨-, hcreated, heq⟩
              · rw [heq]
                exact .inr (.inl ⟨_, rfl⟩)
              · rw [heq]
                exact .inr (.inr ⟨_, ⟨_, _, _, rfl, rfl⟩, hnew, hcreated, rfl⟩)
            · exact .inl ⟨_, rfl⟩

end Calls

section Steps

theorem frame_soft (addrs : List Nat) :
    Frame buf s { s with softAddrs := Function.update s.softAddrs buf addrs } :=
  { Frame.refl buf s with softAddrs := fun _ hne => Function.update_of_ne hne _ _ }

theorem frame_handle (value : Option BufHandle) :
    Frame buf s { s with handle := Function.update s.handle buf value } :=
  { Frame.refl buf s with handle := fun _ hne => Function.update_of_ne hne _ _ }

theorem frame_record (hframe : Frame buf s t) (result : Int) (addr : Option Nat)
    (call : GrallocCall) : Frame buf s (s.record t buf result addr call) := by
  apply hframe.trans
  cases call with
  | receive => exact Frame.refl buf t
  | alloc =>
    dsimp only [ThreadGroup.record]
    split_ifs
    · exact Frame.refl buf t
    · exact frame_set_outstanding _ _
  | registerBuffer =>
    dsimp only [ThreadGroup.record]
    split_ifs
    · exact frame_set_outstanding _ _
    · exact Frame.refl buf t
  | unregisterBuffer => exact frame_set_outstanding _ _
  | lock =>
    dsimp only [ThreadGroup.record]
    split_ifs
    · exact (frame_set_outstanding _ _).trans (frame_soft _)
    · exact Frame.refl buf t
  | unlock =>
    dsimp only [ThreadGroup.record]
    split_ifs
    · exact (frame_set_outstanding _ _).trans (frame_soft _)
    · exact frame_set_outstanding _ _
  | free =>
    dsimp only [ThreadGroup.record]
    split_ifs
    · exact ((frame_set_outstanding _ _).trans (frame_set_outstanding _ _)).trans (frame_soft _)
    · exact Frame.refl buf t

/-- What a call does: its buffer stays in order, and the others are left alone. -/
structure KeepsBooks (buf : Nat) (s : ThreadGroup) (call : GrallocCall) (result : Int)
    (addr : Option Nat) (t : ThreadGroup) : Prop where
  book : BookInv (s.record t buf result addr call) buf
  frame : Frame buf s t

theorem MapInv.records (hmap : MapInv s buf) (htgInfo : t.tgInfo = s.tgInfo)
    (hcalls : t.calls = s.calls) (hmapped : t.mapped = s.mapped) : MapInv t buf := by
  have haddr : t.addrOf buf = s.addrOf buf := by
    unfold ThreadGroup.addrOf
    rw [htgInfo]
  apply hmap.congr haddr
  · rw [hcalls]
  · intro addr
    rw [hmapped]

theorem record_fields (result : Int) (addr : Option Nat) (call : GrallocCall) :
    (s.record t buf result addr call).handle = t.handle ∧
    (s.record t buf result addr call).tgInfo = t.tgInfo ∧
    (s.record t buf result addr call).calls = t.calls ∧
    (s.record t buf result addr call).mapped = t.mapped := by
  cases call with
  | receive | unregisterBuffer => exact ⟨rfl, rfl, rfl, rfl⟩
  | alloc | registerBuffer | lock | unlock | free =>
    dsimp only [ThreadGroup.record]
    split_ifs
    · exact ⟨rfl, rfl, rfl, rfl⟩
    · exact ⟨rfl, rfl, rfl, rfl⟩

/-- A wrapper handle that stays as it is. -/
theorem wrapper_keeps_books (hbook : BookInv s buf) (hhandle : s.handle buf = some h)
    (hwrapper : h.isWrapper = true) (call : GrallocCall) (result : Int) (addr : Option Nat) :
    KeepsBooks buf s call result addr s := by
  obtain ⟨hh, htgInfo, hcalls, hmapped⟩ := @record_fields buf s s result addr call
  refine ⟨?_, Frame.refl buf s⟩
  apply BookInv.ofWrapper _ hwrapper
  · rw [htgInfo]
    exact entry_of_wrapper hbook hhandle hwrapper
  · exact hbook.mapping.records htgInfo hcalls hmapped
  · rw [hh]
    exact hhandle

theorem register_keeps_books (hbook : BookInv s buf) (hhandle : s.handle buf = some h) :
    KeepsBooks buf s .registerBuffer (grallocRegisterBuffer k errno buf h s).1 none
      (grallocRegisterBuffer k errno buf h s).2 := by
  cases hwrapper : h.isWrapper with
  | true =>
    have hsame : (grallocRegisterBuffer k errno buf h s).2 = s := by
      unfold grallocRegisterBuffer incBufCnt
      rw [hwrapper]
      rfl
    rw [hsame]
    exact wrapper_keeps_books hbook hhandle hwrapper _ _ _
  | false =>
    unfold grallocRegisterBuffer
    rcases @inc_buf_cases k buf h s errno hwrapper .registerCounter with ⟨e, hcause, heq⟩ |
      ⟨hfull, hcreated, heq⟩
    · rw [heq]
      refine ⟨?_, frame_opened k⟩
      dsimp only [ThreadGroup.record]
      rw [if_neg]
      · exact hbook.opened k
      · rintro ⟨hzero, hnot⟩
        rcases hcause with hpos | hfull
        · have hneg : -e = 0 := hzero
          omega
        · rw [hfull] at hnot
          cases hnot
    · rw [heq]
      refine ⟨?_, (frame_opened k).trans (frame_set_buf_tg_info _)⟩
      dsimp only [ThreadGroup.record]
      rw [if_pos ⟨rfl, hfull⟩]
      exact (hbook.opened k).startRegister ⟨h, hhandle, hwrapper⟩ hcreated

theorem unregister_keeps_books (hbook : BookInv s buf) (hhandle : s.handle buf = some h) :
    KeepsBooks buf s .unregisterBuffer (grallocUnregisterBuffer k buf h s).1 none
      (grallocUnregisterBuffer k buf h s).2 := by
  cases hwrapper : h.isWrapper with
  | true =>
    have hsame : (grallocUnregisterBuffer k buf h s).2 = s := by
      unfold grallocUnregisterBuffer decBufCnt
      rw [hwrapper]
      rfl
    rw [hsame]
    exact wrapper_keeps_books hbook hhandle hwrapper _ _ _
  | false =>
    have hdec := @dec_buf_cnt_spec k buf h s hbook hwrapper .registerCounter
    refine ⟨?_, hdec.kept.frame⟩
    have htracked : s.Tracked buf := ⟨h, hhandle, hwrapper⟩
    apply hbook.finish htracked hdec
    intro addr hmem
    change addr ∈ (decBufCnt k buf h .registerCounter s).softAddrs buf at hmem
    rw [hdec.kept.softAddrs] at hmem
    obtain ⟨-, hpos⟩ := hbook.soft htracked addr hmem
    refine ⟨hmem, ?_⟩
    rw [hdec.count, if_neg (by decide)]
    omega

theorem unlock_keeps_books (hbook : BookInv s buf) (hhandle : s.handle buf = some h) :
    KeepsBooks buf s .unlock (grallocUnlock k buf h s).1 none (grallocUnlock k buf h s).2 := by
  cases hwrapper : h.isWrapper with
  | true =>
    have hsame : (grallocUnlock k buf h s).2 = s := by
      unfold grallocUnlock decBufCnt
      rw [hwrapper]
      rfl
    rw [hsame]
    exact wrapper_keeps_books hbook hhandle hwrapper _ _ _
  | false =>
    have hdec := @dec_buf_cnt_spec k buf h s hbook hwrapper .lockCounter
    refine ⟨?_, hdec.kept.frame⟩
    have htracked : s.Tracked buf := ⟨h, hhandle, hwrapper⟩
    have hcount : (decBufCnt k buf h .lockCounter s).cnt buf .lockCounter =
        ((decBufCnt k buf h .lockCounter s).recordEnd buf .lockCounter).outstanding
          .lockCounter buf := by
      unfold ThreadGroup.recordEnd
      rw [set_outstanding_eq, if_pos rfl, hdec.count, if_pos rfl, hdec.kept.outstanding,
        hbook.counts htracked]
    dsimp only [ThreadGroup.record]
    split_ifs with hlast
    · apply hbook.finish htracked hdec
      intro addr hmem
      rw [Function.update_self] at hmem
      cases hmem
    · apply hbook.finish htracked hdec
      intro addr hmem
      change addr ∈ (decBufCnt k buf h .lockCounter s).softAddrs buf at hmem
      rw [hdec.kept.softAddrs] at hmem
      rw [hcount]
      exact ⟨hmem, hlast⟩

/-- From a state of the same lock on, `lockMapped` keeps the books. -/
theorem lock_mapped_keeps_books (hbook : BookInv t buf) (hframe : Frame buf s t)
    (htracked : t.Tracked buf) (hwrapper : h.isWrapper = false)
    (hfull : t.full buf .lockCounter = s.full buf .lockCounter) {addr : Option Nat}
    (haddr : ∀ a ∈ addr, t.addrOf buf = some a) (usage : Usage) (left top width height : Int)
    (hasAddr : Bool) :
    KeepsBooks buf s (.lock usage left top width height hasAddr)
      (lockMapped k errno buf h left top width height t).1 addr
      (lockMapped k errno buf h left top width height t).2 := by
  rcases @lock_mapped_cases k buf h t errno hwrapper left top width height with
    ⟨result, hcause, hstate⟩ | ⟨hnotFull, hcreated, heq⟩
  · have hnot : ¬ (result = 0 ∧ s.full buf .lockCounter = false) := by
      rintro ⟨hzero, hopen⟩
      rcases hcause with hne | hmax
      · exact hne hzero
      · rw [hfull, hopen] at hmax
        cases hmax
    rcases hstate with heq | heq
    · rw [heq]
      refine ⟨?_, hframe⟩
      dsimp only [ThreadGroup.record]
      rw [if_neg hnot]
      exact hbook
    · rw [heq]
      refine ⟨?_, hframe.trans (frame_opened k)⟩
      dsimp only [ThreadGroup.record]
      rw [if_neg hnot]
      exact hbook.opened k
  · rw [heq]
    refine ⟨?_, hframe.trans ((frame_opened k).trans (frame_set_buf_tg_info _))⟩
    dsimp only [ThreadGroup.record]
    rw [if_pos ⟨rfl, hfull.symm.trans hnotFull⟩]
    apply (hbook.opened k).start htracked hcreated _ (.inr rfl)
    intro a ha
    exact haddr a (Option.mem_toList.mp ha)

theorem lock_keeps_books (hbook : BookInv s buf) (hhandle : s.handle buf = some h)
    (hfresh : s.mmapFresh k = true) (usage : Usage) (left top width height : Int)
    (hasAddr : Bool) :
    KeepsBooks buf s (.lock usage left top width height hasAddr)
      (grallocLock k errno buf h usage left top width height hasAddr s).1
      (grallocLock k errno buf h usage left top width height hasAddr s).2.1
      (grallocLock k errno buf h usage left top width height hasAddr s).2.2 := by
  have hfailed : ∀ {t result} (addr : Option Nat), BookInv t buf → Frame buf s t → result ≠ 0 →
      KeepsBooks buf s (.lock usage left top width height hasAddr) result addr t := by
    intro t result addr hbook' hframe hne
    refine ⟨?_, hframe⟩
    dsimp only [ThreadGroup.record]
    rw [if_neg fun hboth => hne hboth.1]
    exact hbook'
  cases hwrapper : h.isWrapper with
  | true =>
    rw [wrapper_lock hwrapper]
    exact wrapper_keeps_books hbook hhandle hwrapper _ _ _
  | false =>
    have htracked : s.Tracked buf := ⟨h, hhandle, hwrapper⟩
    by_cases hunmapped : usage.software = false ∨ hasAddr = false
    · rcases @gralloc_lock_unmapped k errno buf h s usage left top width height hasAddr hunmapped
        with heq | heq
      · rw [heq]
        have hne : -einval ≠ 0 := by decide
        exact hfailed none hbook (Frame.refl buf s) hne
      · rw [heq]
        apply lock_mapped_keeps_books hbook (Frame.refl buf s) htracked hwrapper rfl
        intro a ha
        cases ha
    · obtain ⟨hsoft, haddr⟩ := not_or.mp hunmapped
      rw [Bool.not_eq_false] at hsoft haddr
      subst haddr
      obtain ⟨result, t, hmmap, hbook', hframe, hsame, hfull, hresult⟩ :=
        @mmap_buf_spec k buf h s hbook hwrapper hfresh
      have htracked' : t.Tracked buf := by
        unfold ThreadGroup.Tracked
        rw [hsame]
        exact htracked
      rcases @gralloc_lock_software k errno buf h s t usage hsoft left top width height result hmmap
        with ⟨e, rfl, heq⟩ | ⟨addr, mmapProt, rfl, heq⟩
      · rcases hresult with ⟨e', hpos, herror⟩ | ⟨addr, mmapProt, hok, -⟩
        · cases herror
          rw [heq]
          exact hfailed none hbook' hframe (by omega)
        · cases hok
      · rcases hresult with ⟨e, -, herror⟩ | ⟨addr', mmapProt', hok, hmapped⟩
        · cases herror
        · cases hok
          rcases heq with heq | heq
          · rw [heq]
            have hne : -eacces ≠ 0 := by decide
            exact hfailed (some addr) hbook' hframe hne
          · rw [heq]
            apply lock_mapped_keeps_books hbook' hframe htracked' hwrapper (hfull .lockCounter)
            intro a ha
            cases ha
            exact hmapped

theorem alloc_keeps_books (hbook : BookInv s buf) (hnone : s.handle buf = none)
    (width height : Int) (format : PixelFormat) (usage : Usage)
    (allocFramebuffer : Except Errno Bool) :
    KeepsBooks buf s (.alloc width height format usage allocFramebuffer)
      (grallocAlloc k errno buf width height format usage allocFramebuffer s).1 none
      (grallocAlloc k errno buf width height format usage allocFramebuffer s).2 := by
  rcases @gralloc_alloc_cases k errno buf s width height format usage allocFramebuffer with
    ⟨result, heq⟩ | ⟨result, heq⟩ | ⟨h, -, hwrapper, hcreated, heq⟩
  · rw [heq]
    refine ⟨?_, Frame.refl buf s⟩
    dsimp only [ThreadGroup.record]
    rw [if_pos hnone]
    exact hbook
  · rw [heq]
    refine ⟨?_, frame_opened k⟩
    dsimp only [ThreadGroup.record]
    have hstill : (s.opened k).handle buf = none := hnone
    rw [if_pos hstill]
    exact hbook.opened k
  · rw [heq]
    have hhandle : Function.update s.handle buf (some h) buf = some h := Function.update_self ..
    refine ⟨?_, ?_⟩
    · dsimp only [ThreadGroup.record]
      have hsome : Function.update s.handle buf (some h) buf ≠ none := by
        rw [hhandle]
        exact Option.some_ne_none h
      rw [if_neg hsome]
      have hreceived := (hbook.receive hnone h).opened k
      exact hreceived.startRegister ⟨h, hhandle, hwrapper⟩ hcreated
    · exact ((frame_opened k).trans (frame_set_buf_tg_info _)).trans (frame_handle _)

theorem free_keeps_books (hbook : BookInv s buf) (hhandle : s.handle buf = some h) :
    KeepsBooks buf s .free (grallocFree k buf h s).1 none (grallocFree k buf h s).2 := by
  have hfreed : ∀ {t : ThreadGroup}, t.tgInfo buf = none → MapInv t buf → Frame buf s t →
      decBufRegCntIfLastUsr k buf h s = (.ok (), t) →
      KeepsBooks buf s .free (grallocFree k buf h s).1 none (grallocFree k buf h s).2 := by
    intro t hentry hmap hframe heq
    unfold grallocFree
    rw [heq]
    refine ⟨?_, hframe.trans (frame_handle none)⟩
    dsimp only [ThreadGroup.record]
    rw [if_pos rfl]
    apply BookInv.ofGone
    · exact Function.update_self ..
    · exact hentry
    · intro counter
      show ((_ : ThreadGroup).setOutstanding buf .lockCounter 0).outstanding counter buf = 0
      rw [set_outstanding_eq]
      split_ifs with hlock
      · rfl
      · rw [set_outstanding_eq, if_pos]
        cases counter with
        | registerCounter => rfl
        | lockCounter => exact absurd rfl hlock
    · exact Function.update_self ..
    · exact hmap.records rfl rfl rfl
  cases hwrapper : h.isWrapper with
  | true =>
    apply hfreed (entry_of_wrapper hbook hhandle hwrapper) hbook.mapping (Frame.refl buf s)
    unfold decBufRegCntIfLastUsr
    rw [hwrapper]
    rfl
  | false =>
    by_cases huse : 1 < s.cnt buf .registerCounter ∨ s.cnt buf .lockCounter ≠ 0
    · unfold grallocFree
      rw [dec_if_last_usr_refuses hbook hwrapper huse]
      refine ⟨?_, Frame.refl buf s⟩
      dsimp only [ThreadGroup.record]
      rw [if_neg (by decide)]
      exact hbook
    · obtain ⟨t, heq, hkept, hentry⟩ :=
        @dec_if_last_usr_accepts k buf h s hbook hwrapper huse
      exact hfreed hentry hkept.mapping hkept.frame heq

theorem call_keeps_books {a : GrallocAction} (hbook : BookInv s a.buf)
    (hfresh : s.mmapFresh a.kernel = true) {result : Int} {addr : Option Nat}
    (hcall : s.call a = some (result, addr, t)) : KeepsBooks a.buf s a.call result addr t := by
  obtain ⟨buf, k, errno, call⟩ := a
  cases hhandle : s.handle buf with
  | none =>
    cases call with
    | receive h =>
      simp only [ThreadGroup.call, hhandle] at hcall
      cases hcall
      exact ⟨hbook.receive hhandle h, frame_handle _⟩
    | alloc width height format usage allocFramebuffer =>
      simp only [ThreadGroup.call, hhandle] at hcall
      cases hcall
      exact alloc_keeps_books hbook hhandle width height format usage allocFramebuffer
    | registerBuffer | unregisterBuffer | lock | unlock | free =>
      simp only [ThreadGroup.call, hhandle] at hcall
      cases hcall
  | some h =>
    cases call with
    | receive | alloc =>
      simp only [ThreadGroup.call, hhandle] at hcall
      cases hcall
    | registerBuffer =>
      simp only [ThreadGroup.call, hhandle] at hcall
      cases hcall
      exact register_keeps_books hbook hhandle
    | unregisterBuffer =>
      simp only [ThreadGroup.call, hhandle] at hcall
      cases hcall
      exact unregister_keeps_books hbook hhandle
    | lock usage left top width height hasAddr =>
      simp only [ThreadGroup.call, hhandle] at hcall
      have heq := Option.some.inj hcall
      have hkeeps := @lock_keeps_books k errno buf h s hbook hhandle hfresh usage left top width
        height hasAddr
      rw [heq] at hkeeps
      exact hkeeps
    | unlock =>
      simp only [ThreadGroup.call, hhandle] at hcall
      cases hcall
      exact unlock_keeps_books hbook hhandle
    | free =>
      simp only [ThreadGroup.call, hhandle] at hcall
      cases hcall
      exact free_keeps_books hbook hhandle

theorem books_step {a : GrallocAction} (hbooks : ∀ buf, BookInv s buf)
    (hstep : s.step a = some t) (buf : Nat) : BookInv t buf := by
  obtain ⟨hfresh, hmap⟩ := Option.ite_none_right_eq_some.mp hstep
  obtain ⟨⟨result, addr, u⟩, hcall, rfl⟩ := Option.map_eq_some_iff.mp hmap
  have hkeeps := call_keeps_books (hbooks a.buf) hfresh hcall
  by_cases hsame : buf = a.buf
  · subst hsame
    exact hkeeps.book
  · exact (hbooks buf).frame (frame_record hkeeps.frame result addr a.call) hsame

theorem books_start (buf : Nat) : BookInv .start buf := by
  apply BookInv.ofGone rfl rfl (fun _ => rfl) rfl
  refine ⟨rfl, ?_, ?_, ?_⟩
  · intro addr haddr
    cases haddr
  · intro addr hmem
    cases hmem
  · intro addr hmapped
    cases hmapped

theorem books_run {as : List GrallocAction} (hrun : run ThreadGroup.step .start as = some s)
    (buf : Nat) : BookInv s buf := by
  have hall := run_induction (P := fun s => ∀ buf, BookInv s buf)
    (fun s a t h hstep => books_step h hstep) books_start hrun
  exact hall buf

end Steps

section Runs

theorem entry_iff (hbook : BookInv s buf) : s.tgInfo buf ≠ none ↔ s.Tracked buf ∧
    0 < s.outstanding .registerCounter buf + s.outstanding .lockCounter buf := by
  refine ⟨?_, ?_⟩
  · intro hentry
    have htracked : s.Tracked buf := by
      by_contra hnot
      exact hentry (hbook.untracked hnot)
    refine ⟨htracked, ?_⟩
    obtain ⟨info, hinfo⟩ := Option.ne_none_iff_exists'.mp hentry
    obtain ⟨-, -, hsum⟩ := hbook.positive info hinfo
    rw [← hbook.counts htracked, ← hbook.counts htracked, cnt_of_entry hinfo, cnt_of_entry hinfo]
    exact hsum
  · rintro ⟨htracked, hsum⟩ hnone
    rw [← hbook.counts htracked, ← hbook.counts htracked, cnt_of_none hnone,
      cnt_of_none hnone] at hsum
    exact absurd hsum (Int.lt_irrefl 0)

theorem mapped_iff (hmap : MapInv s buf) (addr : Nat) :
    s.mapped addr = some buf ↔ s.addrOf buf = some addr ∨ .lose addr ∈ s.calls buf := by
  refine ⟨hmap.origin addr, ?_⟩
  intro hcause
  rcases hcause with hheld | hlost
  · exact hmap.owner addr hheld
  · exact (hmap.lost addr hlost).1

/-- Without a failed unmapping there is one mapping at most. -/
theorem mapped_once (hmap : MapInv s buf) (hnone : ∀ addr, .lose addr ∉ s.calls buf)
    {addr addr' : Nat} (h : s.mapped addr = some buf) (h' : s.mapped addr' = some buf) :
    addr = addr' := by
  have hheld := ((mapped_iff hmap addr).mp h).resolve_right (hnone addr)
  have hheld' := ((mapped_iff hmap addr').mp h').resolve_right (hnone addr')
  rw [hheld] at hheld'
  exact Option.some.inj hheld'

theorem gralloc_free_result (hbook : BookInv s buf) (hhandle : s.handle buf = some h)
    (hwrapper : h.isWrapper = false) :
    ((grallocFree k buf h s).1 ≠ 0 ↔
      1 < s.outstanding .registerCounter buf ∨ s.outstanding .lockCounter buf ≠ 0) ∧
    ((grallocFree k buf h s).1 ≠ 0 → grallocFree k buf h s = (-enomsg, s)) := by
  have htracked : s.Tracked buf := ⟨h, hhandle, hwrapper⟩
  rw [← hbook.counts htracked, ← hbook.counts htracked]
  unfold grallocFree
  by_cases huse : 1 < s.cnt buf .registerCounter ∨ s.cnt buf .lockCounter ≠ 0
  · rw [dec_if_last_usr_refuses hbook hwrapper huse]
    have hne : -enomsg ≠ 0 := by decide
    exact ⟨⟨fun _ => huse, fun _ => hne⟩, fun _ => rfl⟩
  · obtain ⟨t, heq, -, -⟩ := @dec_if_last_usr_accepts k buf h s hbook hwrapper huse
    rw [heq]
    exact ⟨⟨fun hne => absurd rfl hne, fun huse' => absurd huse' huse⟩, fun hne => absurd rfl hne⟩

/-- In every run of gralloc calls: a handle of a gralloc buffer has an entry while something is
outstanding for it, and no other has; its counts are those of the outstanding calls; while it is
locked it is mapped where software locks have returned it; its mappings are made one after the
other, each after the last was unmapped or its unmapping failed; and `gralloc_free` refuses a buffer
that is registered twice or locked. -/
theorem gralloc_bookkeeping_runs (as : List GrallocAction) (s : ThreadGroup)
    (hrun : run ThreadGroup.step .start as = some s) (buf : Nat) :
    (s.tgInfo buf ≠ none ↔ s.Tracked buf ∧
      0 < s.outstanding .registerCounter buf + s.outstanding .lockCounter buf) ∧
    (s.Tracked buf → ∀ counter, s.cnt buf counter = s.outstanding counter buf) ∧
    (s.Tracked buf → ∀ addr ∈ s.softAddrs buf,
      s.addrOf buf = some addr ∧ s.mapped addr = some buf) ∧
    run Lease.step none (s.calls buf) = some (s.addrOf buf) ∧
    (∀ addr, (s.calls buf).count (.take addr) = (s.calls buf).count (.giveBack addr) +
      (s.calls buf).count (.lose addr) + holding (s.addrOf buf) addr) ∧
    (∀ addr, s.mapped addr = some buf ↔ s.addrOf buf = some addr ∨ .lose addr ∈ s.calls buf) ∧
    ((∀ addr, .lose addr ∉ s.calls buf) → ∀ addr addr', s.mapped addr = some buf →
      s.mapped addr' = some buf → addr = addr') ∧
    (∀ k h, s.handle buf = some h → h.isWrapper = false →
      ((grallocFree k buf h s).1 ≠ 0 ↔
        1 < s.outstanding .registerCounter buf ∨ s.outstanding .lockCounter buf ≠ 0) ∧
      ((grallocFree k buf h s).1 ≠ 0 → grallocFree k buf h s = (-enomsg, s))) := by
  have hbook := books_run hrun buf
  have hmap := hbook.mapping
  refine ⟨entry_iff hbook, hbook.counts, ?_, hmap.lease, ?_, mapped_iff hmap, ?_, ?_⟩
  · intro htracked addr hmem
    have haddr := (hbook.soft htracked addr hmem).1
    exact ⟨haddr, hmap.owner addr haddr⟩
  · intro addr
    have hbalance := run_balance hmap.lease addr
    have hfree : holding (none : Option Nat) addr = 0 := rfl
    omega
  · intro hnone addr addr' hmapped hmapped'
    exact mapped_once hmap hnone hmapped hmapped'
  · intro k h hhandle hwrapper
    exact gralloc_free_result hbook hhandle hwrapper

/-- Every call succeeds, and `mmap` gives this address. -/
def sampleKernel (addr : Nat) : Kernel where
  hashmapCreate := .ok ()
  hashmapPut := true
  openHwmem := .ok ()
  allocFd := .ok ()
  nativeHandleCreate := true
  getInfo := .ok ⟨true, true⟩
  mmap := .ok addr
  munmap := .ok ()
  setDomain := .ok ()

def sampleUsage : Usage := ⟨true, true, false, false, false, false, false, false⟩

/-- A buffer is allocated, locked for software use and registered once more. -/
def sampleLocked : List GrallocAction :=
  [⟨0, sampleKernel 4096, 0, .alloc 64 32 .rgba8888 sampleUsage (.ok false)⟩,
    ⟨0, sampleKernel 4096, 0, .lock sampleUsage 0 0 64 32 true⟩,
    ⟨0, sampleKernel 8192, 0, .registerBuffer⟩]

theorem gralloc_bookkeeping_sample_locked : ∃ s,
    run ThreadGroup.step .start sampleLocked = some s ∧ s.outstanding .registerCounter 0 = 2 ∧
    s.softAddrs 0 = [4096] ∧ s.tgInfo 0 ≠ none ∧ s.mapped 4096 = some 0 := by
  have hrun : ∃ s, run ThreadGroup.step .start sampleLocked = some s ∧
      s.outstanding .registerCounter 0 = 2 ∧ s.softAddrs 0 = [4096] ∧ s.addrOf 0 = some 4096 ∧
      s.tgInfo 0 ≠ none := ⟨_, rfl, rfl, rfl, rfl, Option.some_ne_none _⟩
  obtain ⟨s, hs, hregistered, hsoft, haddr, hentry⟩ := hrun
  obtain ⟨-, -, -, -, -, hmapped, -⟩ := gralloc_bookkeeping_runs sampleLocked s hs 0
  exact ⟨s, hs, hregistered, hsoft, hentry, (hmapped 4096).mpr (.inl haddr)⟩

/-- A handle that wraps the pages another module has mapped. -/
def sampleWrapper : BufHandle where
  width := -1
  height := -1
  format := .other (-1)
  usage := sampleUsage
  offset := 0
  size := 8192
  addr := some 65536
  type := .hwmemContiguous

/-- `munmap` fails as the entry goes; registered and locked again, the buffer is mapped twice. The
registration of a wrapper handle makes no entry. -/
theorem buffer_mapped_twice : ∃ s,
    run ThreadGroup.step .start
      [⟨0, sampleKernel 4096, 0, .receive (newBufHandle 64 32 .rgba8888 sampleUsage)⟩,
        ⟨0, sampleKernel 4096, 0, .registerBuffer⟩,
        ⟨0, sampleKernel 4096, 0, .lock sampleUsage 0 0 64 32 true⟩,
        ⟨0, sampleKernel 8192, 0, .unlock⟩,
        ⟨0, { sampleKernel 8192 with munmap := .error ⟨einval, by decide⟩ }, 0, .unregisterBuffer⟩,
        ⟨0, sampleKernel 8192, 0, .registerBuffer⟩,
        ⟨0, sampleKernel 8192, 0, .lock sampleUsage 0 0 64 32 true⟩,
        ⟨1, sampleKernel 12288, 0, .receive sampleWrapper⟩,
        ⟨1, sampleKernel 12288, 0, .registerBuffer⟩] = some s ∧
    s.mapped 4096 = some 0 ∧ s.mapped 8192 = some 0 ∧
    s.outstanding .registerCounter 1 = 1 ∧ s.tgInfo 1 = none :=
  ⟨_, rfl, rfl, rfl, rfl, rfl⟩

end Runs

end Codinalte.Gralloc
