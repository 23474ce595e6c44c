import Codinalte.Gralloc.Bookkeeping

/-! What each function on an entry does to a buffer whose books are in order. -/

namespace Codinalte.Gralloc
open Codinalte.Machine Codinalte.Lease

section Specs
variable {k : Kernel} {errno : Int} {buf : Nat} {h : BufHandle} {s t : ThreadGroup}

theorem opened_of_created (hcreated : s.mapCreated = true) : s.opened k = s := by
  unfold ThreadGroup.opened
  rw [hcreated, Bool.true_or, ← hcreated]

theorem ensure_map_cases (k : Kernel) (s : ThreadGroup) :
    ((s.opened k).mapCreated = true ∧ ensureBufHandl2TgInfoMapExists k s = (.ok (), s.opened k)) ∨
    ((s.opened k).mapCreated = false ∧ s.mapCreated = false ∧ ∃ e : Errno,
      ensureBufHandl2TgInfoMapExists k s = (.error e, s.opened k)) := by
  unfold ensureBufHandl2TgInfoMapExists
  by_cases hcreated : s.mapCreated = true
  · rw [if_pos hcreated, opened_of_created hcreated]
    exact .inl ⟨hcreated, rfl⟩
  · rw [if_neg hcreated]
    have hnone : s.mapCreated = false := Bool.eq_false_iff.mpr hcreated
    cases hk : k.hashmapCreate with
    | ok =>
      have hopened : s.opened k = { s with mapCreated := true } := by
        simp [ThreadGroup.opened, hk, Except.toBool]
      rw [hopened]
      exact .inl ⟨rfl, rfl⟩
    | error e =>
      have hopened : s.opened k = s := by
        unfold ThreadGroup.opened
        rw [hnone, hk]
        show { s with mapCreated := false } = s
        rw [← hnone]
      rw [hopened]
      exact .inr ⟨hnone, hnone, e, rfl⟩

theorem get_buf_tg_info_eq (hcreated : ∀ info, s.tgInfo buf = some info → s.mapCreated = true) :
    getBufTgInfo k buf s = (s.tgInfo buf, s.opened k) := by
  unfold getBufTgInfo
  rcases ensure_map_cases k s with ⟨-, hensure⟩ | ⟨-, hnone, e, hensure⟩
  · rw [hensure]
    rfl
  · rw [hensure]
    have hempty : s.tgInfo buf = none := by
      cases hinfo : s.tgInfo buf with
      | none => rfl
      | some info =>
        have htrue := hcreated info hinfo
        rw [hnone] at htrue
        cases htrue
    rw [hempty]

theorem get_buf_tg_info_of_entry {info : BufTgInfo} (hinfo : s.tgInfo buf = some info)
    (hcreated : s.mapCreated = true) : getBufTgInfo k buf s = (some info, s) := by
  rw [get_buf_tg_info_eq fun _ _ => hcreated, hinfo, opened_of_created hcreated]

/-- The state after a successful `mmap`. -/
def ThreadGroup.mmapAt (s : ThreadGroup) (buf addr : Nat) (info : BufTgInfo) : ThreadGroup :=
  { s.setBufTgInfo buf info with
    mapped := Function.update s.mapped addr (some buf)
    calls := Function.update s.calls buf (s.calls buf ++ [.take addr]) }

/-- A buffer is mapped already, stays unmapped, or is mapped now. -/
theorem mmap_buf_cases (hbook : BookInv s buf) (hwrapper : h.isWrapper = false)
    (hfresh : s.mmapFresh k = true) :
    (∃ info addr, s.tgInfo buf = some info ∧ info.addr = some addr ∧
      mmapBufIfNecessary k buf h s = (.ok (addr, info.mmapProt), s)) ∨
    (∃ e : Int, 0 < e ∧ mmapBufIfNecessary k buf h s = (.error e, s.opened k)) ∨
    (∃ info mmapProt, ∃ e : Int, 0 < e ∧ s.tgInfo buf = some info ∧ info.addr = none ∧
      mmapBufIfNecessary k buf h s =
        (.error e, s.setBufTgInfo buf { info with mmapProt := mmapProt, addr := none })) ∨
    (∃ info mmapProt addr, s.tgInfo buf = some info ∧ info.addr = none ∧ s.mapped addr = none ∧
      mmapBufIfNecessary k buf h s = (.ok (addr, mmapProt),
        s.mmapAt buf addr { info with mmapProt := mmapProt, addr := some addr })) := by
  have hget := @get_buf_tg_info_eq k buf s hbook.created
  unfold mmapBufIfNecessary
  rw [hwrapper, hget]
  cases hinfo : s.tgInfo buf with
  | none => exact .inr (.inl ⟨enomsg, by decide, rfl⟩)
  | some info =>
    rw [opened_of_created (hbook.created info hinfo)]
    cases haddr : info.addr with
    | some addr => exact .inl ⟨info, addr, rfl, haddr, by simp [haddr]⟩
    | none =>
      cases hgetInfo : k.getInfo with
      | error e => exact .inr (.inl ⟨e, e.property, by simp [haddr]⟩)
      | ok mmapProt =>
        cases hmmap : k.mmap with
        | error e =>
          exact .inr (.inr (.inl ⟨info, mmapProt, e, e.property, rfl, haddr, by simp [haddr]⟩))
        | ok addr =>
          have hnone : s.mapped addr = none := by
            unfold ThreadGroup.mmapFresh at hfresh
            rw [hmmap] at hfresh
            exact eq_of_beq hfresh
          refine .inr (.inr (.inr ⟨info, mmapProt, addr, rfl, haddr, hnone, ?_⟩))
          simp [haddr, ThreadGroup.mmapAt]

theorem BookInv.opened (hbook : BookInv s buf) (k : Kernel) : BookInv (s.opened k) buf where
  untracked := hbook.untracked
  gone := hbook.gone
  created := fun info hinfo => (@frame_opened buf s k).created (hbook.created info hinfo)
  positive := hbook.positive
  counts := hbook.counts
  soft := hbook.soft
  mapping := ⟨hbook.mapping.lease, hbook.mapping.owner, hbook.mapping.lost, hbook.mapping.origin⟩

theorem tg_info_set (info : BufTgInfo) : (s.setBufTgInfo buf info).tgInfo buf = some info :=
  Function.update_self ..

theorem addr_of_set (info : BufTgInfo) : (s.setBufTgInfo buf info).addrOf buf = info.addr := by
  unfold ThreadGroup.addrOf
  rw [tg_info_set]
  rfl

theorem cnt_of_set (info : BufTgInfo) (counter : BufCounters) :
    (s.setBufTgInfo buf info).cnt buf counter = info.cnt counter := by
  unfold ThreadGroup.cnt
  rw [tg_info_set]
  rfl

/-- The entry is written without another address. -/
theorem MapInv.set (hmap : MapInv s buf) {info : BufTgInfo} (haddr : info.addr = s.addrOf buf) :
    MapInv (s.setBufTgInfo buf info) buf := by
  have hsame : (s.setBufTgInfo buf info).addrOf buf = s.addrOf buf := by
    rw [addr_of_set, haddr]
  exact hmap.congr hsame rfl fun _ => Iff.rfl

theorem map_inv_mmap (hmap : MapInv s buf) (hnone : s.addrOf buf = none) {addr : Nat}
    (hfree : s.mapped addr = none) {info : BufTgInfo} (haddr : info.addr = some addr) :
    MapInv (s.mmapAt buf addr info) buf := by
  have hnow : (s.mmapAt buf addr info).addrOf buf = some addr := (addr_of_set info).trans haddr
  have hcalls : (s.mmapAt buf addr info).calls buf = s.calls buf ++ [.take addr] :=
    Function.update_self ..
  have hlost : ∀ other, .lose other ∈ (s.mmapAt buf addr info).calls buf →
      .lose other ∈ s.calls buf := by
    intro other hmem
    rw [hcalls] at hmem
    simpa using hmem
  refine ⟨?_, ?_, ?_, ?_⟩
  · have hlease := hmap.lease
    rw [hnone] at hlease
    rw [hnow, hcalls]
    exact run_take hlease
  · intro other hother
    rw [hnow] at hother
    cases hother
    exact Function.update_self ..
  · intro other hmem
    obtain ⟨hmapped, -⟩ := hmap.lost other (hlost other hmem)
    have hne : other ≠ addr := by
      intro heq
      rw [heq, hfree] at hmapped
      cases hmapped
    refine ⟨?_, ?_⟩
    · show Function.update s.mapped addr _ other = _
      rw [Function.update_of_ne hne]
      exact hmapped
    · rw [hnow]
      intro heq
      exact hne (Option.some.inj heq).symm
  · intro other hmapped
    by_cases hsame : other = addr
    · rw [hnow, hsame]
      exact .inl rfl
    · change Function.update s.mapped addr _ other = _ at hmapped
      rw [Function.update_of_ne hsame] at hmapped
      rcases hmap.origin other hmapped with hheld | hlose
      · rw [hnone] at hheld
        cases hheld
      · rw [hcalls]
        exact .inr (List.mem_append_left _ hlose)

theorem frame_mmap {addr : Nat} (hfree : s.mapped addr = none) (info : BufTgInfo) :
    Frame buf s (s.mmapAt buf addr info) := by
  refine { Frame.refl buf s with
    tgInfo := fun _ hne => Function.update_of_ne hne _ _
    calls := fun _ hne => Function.update_of_ne hne _ _
    mapped := ?_ }
  intro other hne addr'
  show Function.update s.mapped addr _ addr' = _ ↔ _
  by_cases hsame : addr' = addr
  · subst hsame
    rw [Function.update_self, hfree]
    simp [Ne.symm hne]
  · rw [Function.update_of_ne hsame]

/-- Only the mapping of an entry changes. -/
theorem BookInv.remap (hbook : BookInv s buf) (hhandle : t.handle = s.handle)
    (hcreated : t.mapCreated = s.mapCreated) (houtstanding : t.outstanding = s.outstanding)
    (hsoft : t.softAddrs = s.softAddrs) {info info' : BufTgInfo} (hinfo : s.tgInfo buf = some info)
    (hinfo' : t.tgInfo buf = some info') (hreg : info'.regCnt = info.regCnt)
    (hlock : info'.lockCnt = info.lockCnt) (hmap : MapInv t buf)
    (haddr : ∀ addr, s.addrOf buf = some addr → t.addrOf buf = some addr) : BookInv t buf := by
  have htracked : t.Tracked buf ↔ s.Tracked buf := by
    unfold ThreadGroup.Tracked
    rw [hhandle]
  have hcnt : ∀ counter, t.cnt buf counter = s.cnt buf counter := by
    intro counter
    unfold ThreadGroup.cnt
    rw [hinfo, hinfo']
    cases counter with
    | registerCounter => exact hreg
    | lockCounter => exact hlock
  refine ⟨?_, ?_, ?_, ?_, ?_, ?_, hmap⟩
  · intro hnot
    rw [htracked] at hnot
    rw [hbook.untracked hnot] at hinfo
    cases hinfo
  · rw [hhandle, houtstanding, hsoft]
    exact hbook.gone
  · intro _ _
    rw [hcreated]
    exact hbook.created info hinfo
  · intro info'' hinfo''
    rw [hinfo'] at hinfo''
    cases hinfo''
    rw [hreg, hlock]
    exact hbook.positive info hinfo
  · intro htr counter
    rw [hcnt, houtstanding]
    exact hbook.counts (htracked.mp htr) counter
  · intro htr addr hmem
    rw [hsoft] at hmem
    obtain ⟨hmapped, hpos⟩ := hbook.soft (htracked.mp htr) addr hmem
    rw [hcnt]
    exact ⟨haddr addr hmapped, hpos⟩

theorem full_of_cnt (h : ∀ info, s.tgInfo buf = some info → ∃ info', t.tgInfo buf = some info' ∧
      info'.regCnt = info.regCnt ∧ info'.lockCnt = info.lockCnt)
    (hnone : s.tgInfo buf = none → t.tgInfo buf = none) (counter : BufCounters) :
    t.full buf counter = s.full buf counter := by
  unfold ThreadGroup.full
  cases hinfo : s.tgInfo buf with
  | none => rw [hnone hinfo]
  | some info =>
    obtain ⟨info', hinfo', hreg, hlock⟩ := h info hinfo
    rw [hinfo']
    cases counter with
    | registerCounter =>
      show (info'.regCnt == intMax) = (info.regCnt == intMax)
      rw [hreg]
    | lockCounter =>
      show (info'.lockCnt == intMax) = (info.lockCnt == intMax)
      rw [hlock]

theorem mmap_buf_spec (hbook : BookInv s buf) (hwrapper : h.isWrapper = false)
    (hfresh : s.mmapFresh k = true) :
    ∃ result t, mmapBufIfNecessary k buf h s = (result, t) ∧ BookInv t buf ∧ Frame buf s t ∧
      t.handle = s.handle ∧ (∀ counter, t.full buf counter = s.full buf counter) ∧
      ((∃ e : Int, 0 < e ∧ result = .error e) ∨
        ∃ addr mmapProt, result = .ok (addr, mmapProt) ∧ t.addrOf buf = some addr) := by
  rcases mmap_buf_cases hbook hwrapper hfresh with ⟨info, addr, hinfo, haddr, heq⟩ |
    ⟨e, hpos, heq⟩ | ⟨info, mmapProt, e, hpos, hinfo, haddr, heq⟩ |
    ⟨info, mmapProt, addr, hinfo, haddr, hfree, heq⟩
  · refine ⟨_, _, heq, hbook, Frame.refl buf s, rfl, fun _ => rfl, .inr ⟨addr, _, rfl, ?_⟩⟩
    unfold ThreadGroup.addrOf
    rw [hinfo]
    exact haddr
  · exact ⟨_, _, heq, hbook.opened k, frame_opened k, rfl, fun _ => rfl, .inl ⟨e, hpos, rfl⟩⟩
  · have hnone : s.addrOf buf = none := by
      unfold ThreadGroup.addrOf
      rw [hinfo]
      exact haddr
    refine ⟨_, _, heq, ?_, frame_set_buf_tg_info _, rfl, ?_, .inl ⟨e, hpos, rfl⟩⟩
    · refine hbook.remap rfl rfl rfl rfl hinfo (Function.update_self ..) rfl rfl
        (hbook.mapping.set hnone.symm) ?_
      intro addr hsome
      rw [hnone] at hsome
      cases hsome
    · apply full_of_cnt
      · intro info' hinfo'
        rw [hinfo] at hinfo'
        cases hinfo'
        exact ⟨_, Function.update_self .., rfl, rfl⟩
      · intro hempty
        rw [hinfo] at hempty
        cases hempty
  · have hnone : s.addrOf buf = none := by
      unfold ThreadGroup.addrOf
      rw [hinfo]
      exact haddr
    refine ⟨_, _, heq, ?_, frame_mmap hfree _, rfl, ?_, .inr ⟨addr, _, rfl, addr_of_set _⟩⟩
    · refine hbook.remap rfl rfl rfl rfl hinfo (Function.update_self ..) rfl rfl
        (map_inv_mmap hbook.mapping hnone hfree rfl) ?_
      intro addr' hsome
      rw [hnone] at hsome
      cases hsome
    · apply full_of_cnt
      · intro info' hinfo'
        rw [hinfo] at hinfo'
        cases hinfo'
        exact ⟨_, Function.update_self .., rfl, rfl⟩
      · intro hempty
        rw [hinfo] at hempty
        cases hempty

theorem set_cnt_cnt (info : BufTgInfo) (value : Int) (counter counter' : BufCounters) :
    (info.setCnt value counter).cnt counter' =
      if counter' = counter then value else info.cnt counter' := by
  cases counter with
  | registerCounter =>
    cases counter' with
    | registerCounter => rfl
    | lockCounter => rfl
  | lockCounter =>
    cases counter' with
    | registerCounter => rfl
    | lockCounter => rfl

theorem set_cnt_addr (info : BufTgInfo) (value : Int) (counter : BufCounters) :
    (info.setCnt value counter).addr = info.addr := by
  cases counter with
  | registerCounter => rfl
  | lockCounter => rfl

theorem set_outstanding_eq (counter counter' : BufCounters) (value : Int) :
    (s.setOutstanding buf counter value).outstanding counter' buf =
      if counter' = counter then value else s.outstanding counter' buf := by
  show Function.update s.outstanding counter _ counter' buf = _
  by_cases hsame : counter' = counter
  · subst hsame
    rw [Function.update_self, Function.update_self, if_pos rfl]
  · rw [Function.update_of_ne hsame, if_neg hsame]

/-- What a count is incremented from, in the map or in a new entry. -/
def ThreadGroup.entryOrEmpty (s : ThreadGroup) (buf : Nat) : BufTgInfo :=
  (s.tgInfo buf).getD .empty

theorem entry_or_empty_cnt (counter : BufCounters) :
    (s.entryOrEmpty buf).cnt counter = s.cnt buf counter := by
  unfold ThreadGroup.entryOrEmpty ThreadGroup.cnt
  cases s.tgInfo buf with
  | none =>
    cases counter with
    | registerCounter => rfl
    | lockCounter => rfl
  | some info => rfl

theorem entry_or_empty_addr : (s.entryOrEmpty buf).addr = s.addrOf buf := by
  unfold ThreadGroup.entryOrEmpty ThreadGroup.addrOf
  cases s.tgInfo buf with
  | none => rfl
  | some info => rfl

/-- The state after a counter has been incremented. -/
def ThreadGroup.incremented (s : ThreadGroup) (buf : Nat) (counter : BufCounters) : ThreadGroup :=
  s.setBufTgInfo buf ((s.entryOrEmpty buf).setCnt (s.cnt buf counter + 1) counter)

/-- A counter is incremented unless the entry cannot be made or the counter is full; the second
leaves `errno` as it is. -/
theorem inc_buf_cases (errno : Int) (hwrapper : h.isWrapper = false) (counter : BufCounters) :
    (∃ e, (0 < e ∨ s.full buf counter = true) ∧
      incBufCnt k errno buf h counter s = (.error e, s.opened k)) ∨
    (s.full buf counter = false ∧ (s.opened k).mapCreated = true ∧
      incBufCnt k errno buf h counter s = (.ok (), (s.opened k).incremented buf counter)) := by
  unfold incBufCnt getCreateBufTgInfo
  rw [hwrapper]
  rcases ensure_map_cases k s with ⟨hcreated, hensure⟩ | ⟨-, -, e, hensure⟩
  · rw [hensure]
    have hopened : (s.opened k).tgInfo buf = s.tgInfo buf := rfl
    cases hinfo : s.tgInfo buf with
    | none =>
      cases hput : k.hashmapPut with
      | false =>
        refine .inl ⟨enomem, .inl (by decide), ?_⟩
        simp [hopened, hinfo]
      | true =>
        have hzero : BufTgInfo.empty.cnt counter ≠ intMax := by
          cases counter with
          | registerCounter => decide
          | lockCounter => decide
        refine .inr ⟨?_, hcreated, ?_⟩
        · unfold ThreadGroup.full
          rw [hinfo]
          rfl
        · have hentry : (s.opened k).entryOrEmpty buf = .empty := by
            unfold ThreadGroup.entryOrEmpty
            rw [hopened, hinfo]
            rfl
          have hcnt : (s.opened k).cnt buf counter = BufTgInfo.empty.cnt counter := by
            rw [← entry_or_empty_cnt, hentry]
          simp [hopened, hinfo, hzero, ThreadGroup.incremented, hentry, hcnt,
            ThreadGroup.setBufTgInfo]
    | some info =>
      have hentry : (s.opened k).entryOrEmpty buf = info := by
        unfold ThreadGroup.entryOrEmpty
        rw [hopened, hinfo]
        rfl
      have hcnt : (s.opened k).cnt buf counter = info.cnt counter := by
        rw [← entry_or_empty_cnt, hentry]
      have hfull : s.full buf counter = (info.cnt counter == intMax) := by
        unfold ThreadGroup.full
        rw [hinfo]
        rfl
      by_cases hmax : info.cnt counter = intMax
      · refine .inl ⟨errno, .inr ?_, ?_⟩
        · rw [hfull, hmax]
          exact beq_self_eq_true _
        · simp [hopened, hinfo, hmax]
      · refine .inr ⟨?_, hcreated, ?_⟩
        · rw [hfull]
          exact beq_eq_false_iff_ne.mpr hmax
        · simp [hopened, hinfo, hmax, ThreadGroup.incremented, hentry, hcnt]
  · rw [hensure]
    exact .inl ⟨e, .inl e.property, rfl⟩

theorem BookInv.ofTracked (htracked : s.Tracked buf)
    (hcreated : ∀ info, s.tgInfo buf = some info → s.mapCreated = true)
    (hpositive : ∀ info, s.tgInfo buf = some info →
      0 ≤ info.regCnt ∧ 0 ≤ info.lockCnt ∧ 0 < info.regCnt + info.lockCnt)
    (hcounts : ∀ counter, s.cnt buf counter = s.outstanding counter buf)
    (hsoft : ∀ addr ∈ s.softAddrs buf, s.addrOf buf = some addr ∧ 0 < s.cnt buf .lockCounter)
    (hmapping : MapInv s buf) : BookInv s buf where
  untracked := fun hnot => absurd htracked hnot
  gone := by
    intro hnone
    obtain ⟨h, hsome, -⟩ := htracked
    rw [hnone] at hsome
    cases hsome
  created := hcreated
  positive := hpositive
  counts := fun _ => hcounts
  soft := fun _ => hsoft
  mapping := hmapping

theorem cnt_nonneg (hbook : BookInv s buf) (counter : BufCounters) : 0 ≤ s.cnt buf counter := by
  unfold ThreadGroup.cnt
  cases hinfo : s.tgInfo buf with
  | none => exact Int.le_refl 0
  | some info =>
    obtain ⟨hreg, hlock, -⟩ := hbook.positive info hinfo
    cases counter with
    | registerCounter => exact hreg
    | lockCounter => exact hlock

/-- One more registration or lock; the lock of a mapped buffer returns the address. -/
theorem BookInv.start (hbook : BookInv s buf) (htracked : s.Tracked buf)
    (hcreated : s.mapCreated = true) {counter : BufCounters} {addrs : List Nat}
    (hmapped : ∀ addr ∈ addrs, s.addrOf buf = some addr)
    (haddrs : addrs = [] ∨ counter = .lockCounter) :
    BookInv { (s.incremented buf counter).recordStart buf counter with
      softAddrs := Function.update s.softAddrs buf (addrs ++ s.softAddrs buf) } buf := by
  have hsetAddr : (s.incremented buf counter).addrOf buf = s.addrOf buf := by
    unfold ThreadGroup.incremented
    rw [addr_of_set, set_cnt_addr, entry_or_empty_addr]
  have hsetCnt : ∀ counter', (s.incremented buf counter).cnt buf counter' =
      if counter' = counter then s.cnt buf counter + 1 else s.cnt buf counter' := by
    intro counter'
    unfold ThreadGroup.incremented
    rw [cnt_of_set, set_cnt_cnt, entry_or_empty_cnt]
  have hnonneg := fun counter => cnt_nonneg hbook counter
  apply BookInv.ofTracked
  · exact htracked
  · exact fun _ _ => hcreated
  · intro info hinfo
    change (s.incremented buf counter).tgInfo buf = some info at hinfo
    have hreg : (s.incremented buf counter).cnt buf .registerCounter = info.regCnt := by
      unfold ThreadGroup.cnt
      rw [hinfo]
      rfl
    have hlock : (s.incremented buf counter).cnt buf .lockCounter = info.lockCnt := by
      unfold ThreadGroup.cnt
      rw [hinfo]
      rfl
    have hregNonneg := hnonneg .registerCounter
    have hlockNonneg := hnonneg .lockCounter
    rw [hsetCnt] at hreg hlock
    cases counter with
    | registerCounter =>
      rw [if_pos rfl] at hreg
      rw [if_neg (by decide)] at hlock
      omega
    | lockCounter =>
      rw [if_neg (by decide)] at hreg
      rw [if_pos rfl] at hlock
      omega
  · intro counter'
    show (s.incremented buf counter).cnt buf counter' =
      ((s.incremented buf counter).recordStart buf counter).outstanding counter' buf
    unfold ThreadGroup.recordStart
    rw [hsetCnt, set_outstanding_eq]
    show _ = if counter' = counter then s.outstanding counter buf + 1
      else s.outstanding counter' buf
    rw [hbook.counts htracked, hbook.counts htracked]
  · intro addr hmem
    change addr ∈ Function.update s.softAddrs buf _ buf at hmem
    rw [Function.update_self] at hmem
    show (s.incremented buf counter).addrOf buf = _ ∧ 0 < (s.incremented buf counter).cnt buf _
    rw [hsetAddr, hsetCnt]
    rcases List.mem_append.mp hmem with hnew | hold
    · rcases haddrs with rfl | rfl
      · cases hnew
      · refine ⟨hmapped addr hnew, ?_⟩
        rw [if_pos rfl]
        have hlock := hnonneg .lockCounter
        omega
    · obtain ⟨haddr, hpos⟩ := hbook.soft htracked addr hold
      refine ⟨haddr, ?_⟩
      split_ifs with hcounter
      · subst hcounter
        omega
      · exact hpos
  · have hset : MapInv (s.incremented buf counter) buf := by
      apply hbook.mapping.set
      rw [set_cnt_addr, entry_or_empty_addr]
    exact ⟨hset.lease, hset.owner, hset.lost, hset.origin⟩

/-- The state after the entry is gone. -/
def ThreadGroup.dropped (s : ThreadGroup) (buf : Nat) : ThreadGroup :=
  { s with tgInfo := Function.update s.tgInfo buf none }

theorem addr_of_dropped : (s.dropped buf).addrOf buf = none := by
  unfold ThreadGroup.addrOf
  have hnone : (s.dropped buf).tgInfo buf = none := Function.update_self ..
  rw [hnone]
  rfl

/-- A mapping is given back unless one of the two system calls fails. -/
theorem munmap_buf_cases {info : BufTgInfo} (hinfo : s.tgInfo buf = some info)
    (hcreated : s.mapCreated = true) :
    (info.addr = none ∧ munmapBufIfNecessary k buf s = s) ∨
    (∃ addr, info.addr = some addr ∧ (munmapBufIfNecessary k buf s = { s with
        calls := Function.update s.calls buf (s.calls buf ++ [.lose addr]) } ∨
      munmapBufIfNecessary k buf s = { s.setBufTgInfo buf { info with addr := none } with
        mapped := Function.update s.mapped addr none
        calls := Function.update s.calls buf (s.calls buf ++ [.giveBack addr]) })) := by
  unfold munmapBufIfNecessary
  rw [get_buf_tg_info_of_entry hinfo hcreated]
  cases haddr : info.addr with
  | none => exact .inl ⟨rfl, by simp [haddr]⟩
  | some addr =>
    refine .inr ⟨addr, rfl, ?_⟩
    cases hgetInfo : k.getInfo with
    | error e => exact .inl (by simp [haddr])
    | ok mmapProt =>
      cases hmunmap : k.munmap with
      | error e => exact .inl (by simp [haddr])
      | ok => exact .inr (by simp [haddr])

/-- The entry goes, and with it the only mapping or what is left of it. -/
theorem remove_buf_tg_info_cases {info : BufTgInfo} (hinfo : s.tgInfo buf = some info)
    (hcreated : s.mapCreated = true) :
    (info.addr = none ∧ removeBufTgInfo k buf s = s.dropped buf) ∨
    (∃ addr, info.addr = some addr ∧ (removeBufTgInfo k buf s = { s.dropped buf with
        calls := Function.update s.calls buf (s.calls buf ++ [.lose addr]) } ∨
      removeBufTgInfo k buf s = { s.dropped buf with
        mapped := Function.update s.mapped addr none
        calls := Function.update s.calls buf (s.calls buf ++ [.giveBack addr]) })) := by
  have hremove : removeBufTgInfo k buf s = (munmapBufIfNecessary k buf s).dropped buf := by
    unfold removeBufTgInfo ensureBufHandl2TgInfoMapExists
    rw [if_pos hcreated]
    rfl
  rw [hremove]
  rcases @munmap_buf_cases k buf s info hinfo hcreated with ⟨haddr, heq⟩ | ⟨addr, haddr, heq | heq⟩
  · rw [heq]
    exact .inl ⟨haddr, rfl⟩
  · rw [heq]
    exact .inr ⟨addr, haddr, .inl rfl⟩
  · rw [heq]
    refine .inr ⟨addr, haddr, .inr ?_⟩
    simp [ThreadGroup.dropped, ThreadGroup.setBufTgInfo]

theorem map_inv_dropped (hmap : MapInv s buf) (hnone : s.addrOf buf = none) :
    MapInv (s.dropped buf) buf := by
  have hsame : (s.dropped buf).addrOf buf = s.addrOf buf := addr_of_dropped.trans hnone.symm
  exact hmap.congr hsame rfl fun _ => Iff.rfl

theorem map_inv_lost (hmap : MapInv s buf) {addr : Nat} (haddr : s.addrOf buf = some addr) :
    MapInv { s.dropped buf with
      calls := Function.update s.calls buf (s.calls buf ++ [.lose addr]) } buf := by
  have hcalls : Function.update s.calls buf (s.calls buf ++ [.lose addr]) buf =
      s.calls buf ++ [.lose addr] := Function.update_self ..
  have hnone : ∀ calls, ({ s.dropped buf with calls := calls } : ThreadGroup).addrOf buf = none :=
    fun _ => addr_of_dropped
  refine ⟨?_, ?_, ?_, ?_⟩
  · have hlease := hmap.lease
    rw [haddr] at hlease
    rw [hnone]
    show run Lease.step none (Function.update s.calls buf _ buf) = _
    rw [hcalls]
    exact run_lose hlease
  · intro other hsome
    rw [hnone] at hsome
    cases hsome
  · intro other hmem
    change _ ∈ Function.update s.calls buf _ buf at hmem
    rw [hcalls] at hmem
    refine ⟨?_, ?_⟩
    · rcases List.mem_append.mp hmem with hold | hnew
      · exact (hmap.lost other hold).1
      · cases List.mem_singleton.mp hnew
        exact hmap.owner addr haddr
    · rw [hnone]
      exact (Option.some_ne_none other).symm
  · intro other hmapped
    show _ ∨ _ ∈ Function.update s.calls buf _ buf
    rw [hcalls]
    rcases hmap.origin other hmapped with hheld | hlose
    · rw [haddr] at hheld
      cases hheld
      exact .inr (List.mem_append_right _ (List.mem_singleton.mpr rfl))
    · exact .inr (List.mem_append_left _ hlose)

theorem map_inv_given_back (hmap : MapInv s buf) {addr : Nat} (haddr : s.addrOf buf = some addr) :
    MapInv { s.dropped buf with
      mapped := Function.update s.mapped addr none
      calls := Function.update s.calls buf (s.calls buf ++ [.giveBack addr]) } buf := by
  have hcalls : Function.update s.calls buf (s.calls buf ++ [.giveBack addr]) buf =
      s.calls buf ++ [.giveBack addr] := Function.update_self ..
  have hnone : ∀ mapped calls,
      ({ s.dropped buf with mapped := mapped, calls := calls } : ThreadGroup).addrOf buf = none :=
    fun _ _ => addr_of_dropped
  refine ⟨?_, ?_, ?_, ?_⟩
  · have hlease := hmap.lease
    rw [haddr] at hlease
    rw [hnone]
    show run Lease.step none (Function.update s.calls buf _ buf) = _
    rw [hcalls]
    exact run_give_back hlease
  · intro other hsome
    rw [hnone] at hsome
    cases hsome
  · intro other hmem
    change _ ∈ Function.update s.calls buf _ buf at hmem
    rw [hcalls] at hmem
    have hold : .lose other ∈ s.calls buf := by simpa using hmem
    obtain ⟨hmapped, hother⟩ := hmap.lost other hold
    have hne : other ≠ addr := by
      intro heq
      rw [heq] at hother
      exact hother haddr
    refine ⟨?_, ?_⟩
    · show Function.update s.mapped addr none other = _
      rw [Function.update_of_ne hne]
      exact hmapped
    · rw [hnone]
      exact (Option.some_ne_none other).symm
  · intro other hmapped
    change Function.update s.mapped addr none other = _ at hmapped
    show _ ∨ _ ∈ Function.update s.calls buf _ buf
    rw [hcalls]
    by_cases hsame : other = addr
    · subst hsame
      rw [Function.update_self] at hmapped
      cases hmapped
    · rw [Function.update_of_ne hsame] at hmapped
      rcases hmap.origin other hmapped with hheld | hlose
      · rw [haddr] at hheld
        exact absurd (Option.some.inj hheld).symm hsame
      · exact .inr (List.mem_append_left _ hlose)

/-- What a call that takes an entry away, or writes it, leaves to its callers. -/
structure Kept (buf : Nat) (s t : ThreadGroup) : Prop where
  frame : Frame buf s t
  handle : t.handle = s.handle
  outstanding : t.outstanding = s.outstanding
  softAddrs : t.softAddrs = s.softAddrs
  mapping : MapInv t buf

theorem remove_buf_tg_info_spec (hmap : MapInv s buf) {info : BufTgInfo}
    (hinfo : s.tgInfo buf = some info) (hcreated : s.mapCreated = true) :
    (removeBufTgInfo k buf s).tgInfo buf = none ∧ Kept buf s (removeBufTgInfo k buf s) := by
  have haddrOf : s.addrOf buf = info.addr := by
    unfold ThreadGroup.addrOf
    rw [hinfo]
    rfl
  have hframe : ∀ mapped calls,
      (∀ other, other ≠ buf → ∀ addr, mapped addr = some other ↔ s.mapped addr = some other) →
      (∀ other, other ≠ buf → calls other = s.calls other) →
      Frame buf s { s.dropped buf with mapped := mapped, calls := calls } := by
    intro mapped calls hmapped hcalls
    exact { Frame.refl buf s with
      tgInfo := fun _ hne => Function.update_of_ne hne _ _
      calls := hcalls
      mapped := hmapped }
  rcases @remove_buf_tg_info_cases k buf s info hinfo hcreated with ⟨haddr, heq⟩ |
    ⟨addr, haddr, heq | heq⟩
  · rw [heq]
    refine ⟨Function.update_self .., ?_, rfl, rfl, rfl, map_inv_dropped hmap (haddrOf.trans haddr)⟩
    exact hframe s.mapped s.calls (fun _ _ _ => Iff.rfl) (fun _ _ => rfl)
  · rw [heq]
    refine ⟨Function.update_self .., ?_, rfl, rfl, rfl, map_inv_lost hmap (haddrOf.trans haddr)⟩
    exact hframe s.mapped _ (fun _ _ _ => Iff.rfl) (fun _ hne => Function.update_of_ne hne _ _)
  · rw [heq]
    refine ⟨Function.update_self .., ?_, rfl, rfl, rfl,
      map_inv_given_back hmap (haddrOf.trans haddr)⟩
    apply hframe
    · intro other hne addr'
      by_cases hsame : addr' = addr
      · subst hsame
        rw [Function.update_self, hmap.owner addr' (haddrOf.trans haddr)]
        simp [Ne.symm hne]
      · rw [Function.update_of_ne hsame]
    · exact fun _ hne => Function.update_of_ne hne _ _

theorem Kept.trans {u : ThreadGroup} (hst : Kept buf s t) (htu : Kept buf t u) : Kept buf s u where
  frame := hst.frame.trans htu.frame
  handle := htu.handle.trans hst.handle
  outstanding := htu.outstanding.trans hst.outstanding
  softAddrs := htu.softAddrs.trans hst.softAddrs
  mapping := htu.mapping

theorem cnt_of_none (hnone : s.tgInfo buf = none) (counter : BufCounters) :
    s.cnt buf counter = 0 := by
  unfold ThreadGroup.cnt
  rw [hnone]
  rfl

theorem cnt_of_entry {info : BufTgInfo} (hinfo : s.tgInfo buf = some info)
    (counter : BufCounters) : s.cnt buf counter = info.cnt counter := by
  unfold ThreadGroup.cnt
  rw [hinfo]
  rfl

/-- A decrement leaves an entry with a positive count, or none. -/
structure Decremented (buf : Nat) (counter : BufCounters) (s t : ThreadGroup) : Prop where
  kept : Kept buf s t
  created : ∀ info, t.tgInfo buf = some info → t.mapCreated = true
  positive : ∀ info, t.tgInfo buf = some info →
    0 ≤ info.regCnt ∧ 0 ≤ info.lockCnt ∧ 0 < info.regCnt + info.lockCnt
  count : ∀ counter', t.cnt buf counter' =
    if counter' = counter then oneLess (s.cnt buf counter) else s.cnt buf counter'
  addr : t.tgInfo buf ≠ none → t.addrOf buf = s.addrOf buf

theorem one_less_nonneg {count : Int} : 0 ≤ oneLess count := by
  unfold oneLess
  split_ifs
  · exact Int.le_refl 0
  · omega

theorem dec_buf_cnt_spec (hbook : BookInv s buf) (hwrapper : h.isWrapper = false)
    (counter : BufCounters) : Decremented buf counter s (decBufCnt k buf h counter s) := by
  unfold decBufCnt
  rw [hwrapper, get_buf_tg_info_eq hbook.created]
  cases hinfo : s.tgInfo buf with
  | none =>
    have hnone : (s.opened k).tgInfo buf = none := hinfo
    refine ⟨⟨frame_opened k, rfl, rfl, rfl, (hbook.opened k).mapping⟩, ?_, ?_, ?_, ?_⟩
    · intro info hsome
      exact absurd (hnone.symm.trans hsome) (Option.some_ne_none info).symm
    · intro info hsome
      exact absurd (hnone.symm.trans hsome) (Option.some_ne_none info).symm
    · intro counter'
      show (s.opened k).cnt buf counter' = _
      rw [cnt_of_none hnone, cnt_of_none hinfo, cnt_of_none hinfo]
      split_ifs
      · rfl
      · rfl
    · exact fun hsome => absurd hnone hsome
  | some info =>
    have hcreated := hbook.created info hinfo
    rw [opened_of_created hcreated]
    have haddrOf : s.addrOf buf = info.addr := by
      unfold ThreadGroup.addrOf
      rw [hinfo]
      rfl
    let written : BufTgInfo := info.setCnt (oneLess (info.cnt counter)) counter
    have haddr : written.addr = s.addrOf buf := by
      rw [haddrOf]
      exact set_cnt_addr info _ counter
    have hset : Kept buf s (s.setBufTgInfo buf written) :=
      ⟨frame_set_buf_tg_info written, rfl, rfl, rfl, hbook.mapping.set haddr⟩
    have hwritten : ∀ counter', written.cnt counter' =
        if counter' = counter then oneLess (s.cnt buf counter) else s.cnt buf counter' := by
      intro counter'
      rw [cnt_of_entry hinfo, cnt_of_entry hinfo]
      exact set_cnt_cnt info _ counter counter'
    show Decremented buf counter s (if 0 = written.regCnt ∧ 0 = written.lockCnt then
      removeBufTgInfo k buf (s.setBufTgInfo buf written) else s.setBufTgInfo buf written)
    split_ifs with hzero
    · obtain ⟨hnone, hkept⟩ :=
        @remove_buf_tg_info_spec k buf _ hset.mapping written (tg_info_set written) hcreated
      refine ⟨hset.trans hkept, ?_, ?_, ?_, ?_⟩
      · intro info' hsome
        exact absurd (hnone.symm.trans hsome) (Option.some_ne_none info').symm
      · intro info' hsome
        exact absurd (hnone.symm.trans hsome) (Option.some_ne_none info').symm
      · intro counter'
        rw [cnt_of_none hnone, ← hwritten]
        cases counter' with
        | registerCounter => exact hzero.1
        | lockCounter => exact hzero.2
      · exact fun hsome => absurd hnone hsome
    · refine ⟨hset, fun _ _ => hcreated, ?_, ?_, fun _ => (addr_of_set written).trans haddr⟩
      · intro info' hsome
        rw [tg_info_set] at hsome
        cases hsome
        have hnonneg : ∀ counter', 0 ≤ written.cnt counter' := by
          intro counter'
          rw [hwritten]
          split_ifs
          · exact one_less_nonneg
          · exact cnt_nonneg hbook counter'
        have hreg : 0 ≤ written.regCnt := hnonneg .registerCounter
        have hlock : 0 ≤ written.lockCnt := hnonneg .lockCounter
        refine ⟨hreg, hlock, ?_⟩
        omega
      · intro counter'
        rw [cnt_of_set, hwritten]

/-- One registration or lock less; the addresses are kept while the buffer is locked. -/
theorem BookInv.finish (hbook : BookInv s buf) (htracked : s.Tracked buf) {counter : BufCounters}
    (hdec : Decremented buf counter s t) {softAddrs : Nat → List Nat}
    (hsoft : ∀ addr ∈ softAddrs buf, addr ∈ s.softAddrs buf ∧ t.cnt buf .lockCounter ≠ 0) :
    BookInv { t.recordEnd buf counter with softAddrs := softAddrs } buf := by
  apply BookInv.ofTracked
  · show ∃ h, t.handle buf = some h ∧ _
    rw [hdec.kept.handle]
    exact htracked
  · exact hdec.created
  · exact hdec.positive
  · intro counter'
    show t.cnt buf counter' = (t.recordEnd buf counter).outstanding counter' buf
    unfold ThreadGroup.recordEnd
    rw [set_outstanding_eq, hdec.count, hdec.kept.outstanding, hbook.counts htracked,
      hbook.counts htracked]
  · intro addr hmem
    obtain ⟨hold, hlocked⟩ := hsoft addr hmem
    have hentry : t.tgInfo buf ≠ none := fun hnone => hlocked (cnt_of_none hnone _)
    obtain ⟨haddr, -⟩ := hbook.soft htracked addr hold
    refine ⟨(hdec.addr hentry).trans haddr, ?_⟩
    show 0 < t.cnt buf .lockCounter
    have hnonneg : 0 ≤ t.cnt buf .lockCounter := by
      rw [hdec.count]
      split_ifs
      · exact one_less_nonneg
      · exact cnt_nonneg hbook _
    omega
  · exact ⟨hdec.kept.mapping.lease, hdec.kept.mapping.owner, hdec.kept.mapping.lost,
      hdec.kept.mapping.origin⟩

theorem not_tracked_of_gone (hnone : s.handle buf = none) : ¬ s.Tracked buf := by
  rintro ⟨h, hsome, -⟩
  rw [hnone] at hsome
  cases hsome

theorem not_tracked_of_wrapper (hhandle : s.handle buf = some h) (hwrapper : h.isWrapper = true) :
    ¬ s.Tracked buf := by
  rintro ⟨h', hsome, hnot⟩
  rw [hhandle] at hsome
  cases hsome
  rw [hwrapper] at hnot
  cases hnot

/-- The books of a handle that gralloc does not map are empty. -/
theorem BookInv.ofUntracked (hnot : ¬ s.Tracked buf) (hgone : s.handle buf = none →
      (∀ counter, s.outstanding counter buf = 0) ∧ s.softAddrs buf = [])
    (hentry : s.tgInfo buf = none) (hmapping : MapInv s buf) : BookInv s buf where
  untracked := fun _ => hentry
  gone := hgone
  created := by
    intro info hinfo
    rw [hentry] at hinfo
    cases hinfo
  positive := by
    intro info hinfo
    rw [hentry] at hinfo
    cases hinfo
  counts := fun htracked => absurd htracked hnot
  soft := fun htracked => absurd htracked hnot
  mapping := hmapping

theorem BookInv.ofGone (hnone : s.handle buf = none) (hentry : s.tgInfo buf = none)
    (houtstanding : ∀ counter, s.outstanding counter buf = 0) (hsoft : s.softAddrs buf = [])
    (hmapping : MapInv s buf) : BookInv s buf :=
  .ofUntracked (not_tracked_of_gone hnone) (fun _ => ⟨houtstanding, hsoft⟩) hentry hmapping

/-- The records of a wrapper handle count nothing. -/
theorem BookInv.ofWrapper (hhandle : s.handle buf = some h) (hwrapper : h.isWrapper = true)
    (hentry : s.tgInfo buf = none) (hmapping : MapInv s buf) : BookInv s buf := by
  apply BookInv.ofUntracked (not_tracked_of_wrapper hhandle hwrapper) _ hentry hmapping
  intro hnone
  rw [hhandle] at hnone
  cases hnone

theorem entry_of_wrapper (hbook : BookInv s buf) (hhandle : s.handle buf = some h)
    (hwrapper : h.isWrapper = true) : s.tgInfo buf = none :=
  hbook.untracked (not_tracked_of_wrapper hhandle hwrapper)

theorem entry_of_gone (hbook : BookInv s buf) (hnone : s.handle buf = none) :
    s.tgInfo buf = none :=
  hbook.untracked (not_tracked_of_gone hnone)

/-- A new handle has nothing outstanding. -/
theorem BookInv.receive (hbook : BookInv s buf) (hnone : s.handle buf = none) (h : BufHandle) :
    BookInv { s with handle := Function.update s.handle buf (some h) } buf := by
  have hentry := entry_of_gone hbook hnone
  obtain ⟨hzero, hsoft⟩ := hbook.gone hnone
  have hhandle : Function.update s.handle buf (some h) buf = some h := Function.update_self ..
  have hmapping := hbook.mapping
  cases hwrapper : h.isWrapper with
  | true =>
    exact BookInv.ofWrapper hhandle hwrapper hentry
      ⟨hmapping.lease, hmapping.owner, hmapping.lost, hmapping.origin⟩
  | false =>
    apply BookInv.ofTracked
    · exact ⟨h, hhandle, hwrapper⟩
    · exact hbook.created
    · exact hbook.positive
    · intro counter
      show s.cnt buf counter = s.outstanding counter buf
      rw [cnt_of_none hentry, hzero]
    · intro addr hmem
      change addr ∈ s.softAddrs buf at hmem
      rw [hsoft] at hmem
      cases hmem
    · exact ⟨hmapping.lease, hmapping.owner, hmapping.lost, hmapping.origin⟩

theorem BookInv.startRegister (hbook : BookInv s buf) (htracked : s.Tracked buf)
    (hcreated : s.mapCreated = true) :
    BookInv ((s.incremented buf .registerCounter).recordStart buf .registerCounter) buf := by
  have hstart := @BookInv.start buf s hbook htracked hcreated .registerCounter []
    (fun _ hmem => absurd hmem List.not_mem_nil) (.inl rfl)
  have hsame : Function.update s.softAddrs buf ([] ++ s.softAddrs buf) = s.softAddrs :=
    Function.update_eq_self buf s.softAddrs
  rw [hsame] at hstart
  exact hstart

/-- A buffer that is registered more than once or locked is not freed. -/
theorem dec_if_last_usr_refuses (hbook : BookInv s buf) (hwrapper : h.isWrapper = false)
    (huse : 1 < s.cnt buf .registerCounter ∨ s.cnt buf .lockCounter ≠ 0) :
    decBufRegCntIfLastUsr k buf h s = (.error enomsg, s) := by
  unfold decBufRegCntIfLastUsr
  rw [hwrapper, get_buf_tg_info_eq hbook.created]
  cases hinfo : s.tgInfo buf with
  | none =>
    rw [cnt_of_none hinfo, cnt_of_none hinfo] at huse
    rcases huse with hlt | hne
    · omega
    · exact absurd rfl hne
  | some info =>
    rw [cnt_of_entry hinfo, cnt_of_entry hinfo] at huse
    rw [opened_of_created (hbook.created info hinfo)]
    exact if_pos huse

theorem dec_if_last_usr_accepts (hbook : BookInv s buf) (hwrapper : h.isWrapper = false)
    (huse : ¬ (1 < s.cnt buf .registerCounter ∨ s.cnt buf .lockCounter ≠ 0)) :
    ∃ t, decBufRegCntIfLastUsr k buf h s = (.ok (), t) ∧ Kept buf s t ∧ t.tgInfo buf = none := by
  unfold decBufRegCntIfLastUsr
  rw [hwrapper, get_buf_tg_info_eq hbook.created]
  cases hinfo : s.tgInfo buf with
  | none =>
    exact ⟨s.opened k, rfl, ⟨frame_opened k, rfl, rfl, rfl, (hbook.opened k).mapping⟩, hinfo⟩
  | some info =>
    rw [opened_of_created (hbook.created info hinfo)]
    have hdec := @dec_buf_cnt_spec k buf h s hbook hwrapper .registerCounter
    have hreg := hdec.count .registerCounter
    have hlock := hdec.count .lockCounter
    rw [if_pos rfl] at hreg
    rw [if_neg (by decide)] at hlock
    obtain ⟨hone, hzero⟩ := not_or.mp huse
    rw [not_not] at hzero
    have hnone : (decBufCnt k buf h .registerCounter s).tgInfo buf = none := by
      cases hleft : (decBufCnt k buf h .registerCounter s).tgInfo buf with
      | none => rfl
      | some left =>
        -- Both counts of what is left are zero.
        obtain ⟨hregNonneg, hlockNonneg, hsum⟩ := hdec.positive left hleft
        rw [cnt_of_entry hleft] at hreg hlock
        have hreg' : left.regCnt = oneLess (s.cnt buf .registerCounter) := hreg
        have hlock' : left.lockCnt = s.cnt buf .lockCounter := hlock
        unfold oneLess at hreg'
        split_ifs at hreg'
        · omega
        · omega
    rw [cnt_of_entry hinfo, cnt_of_entry hinfo] at huse
    refine ⟨_, ?_, hdec.kept, hnone⟩
    exact if_neg huse

end Specs

end Codinalte.Gralloc
