import Codinalte.Lib.LinkedList

/-! Ultra low power mode of the media processor: the callbacks registered for it, linked through
`pNext` with a first and a last pointer, and the way into retention and out of it. -/

namespace Codinalte.Mpc
open Codinalte.LinkedList

/-- The callbacks with the end pointers of their list. -/
structure SleepCallbacks (A : Type) where
  pNext : A → Option A
  pFirst : Option A
  pLast : Option A

variable {A : Type} [DecidableEq A]

/-- `none` is a store through NULL. -/
def registerForSleep (m : SleepCallbacks A) (pCallback : A) : Option (SleepCallbacks A) :=
  match m.pFirst with
  | none => some
    { pNext := Function.update m.pNext pCallback none
      pFirst := some pCallback
      pLast := some pCallback }
  | some _ => m.pLast.map fun pLast =>
    { pNext := Function.update (Function.update m.pNext pCallback none) pLast (some pCallback)
      pFirst := m.pFirst
      pLast := some pCallback }

/-- The search of `unregisterForSleep`: the callback and the one before it. The fuel bounds the
callbacks it may visit. -/
def searchCallback (pNext : A → Option A) (pCallback : A) :
    Nat → Option A → Option A → Option (Option A × Option A)
  | _, pPrev, none => some (pPrev, none)
  | 0, _, some _ => none
  | fuel + 1, pPrev, some pCurrent =>
    if pCurrent = pCallback then some (pPrev, some pCurrent)
    else searchCallback pNext pCallback fuel (some pCurrent) (pNext pCurrent)

def unlinkCallback (m : SleepCallbacks A) (pPrev : Option A) (pCurrent : A) : SleepCallbacks A :=
  match pPrev with
  | some prev => { m with
      pNext := Function.update m.pNext prev (m.pNext pCurrent)
      pLast := if m.pLast = some pCurrent then some prev else m.pLast }
  | none => { m with
      pFirst := m.pNext pCurrent
      pLast := if m.pLast = some pCurrent then m.pNext pCurrent else m.pLast }

def unregisterForSleep (fuel : Nat) (m : SleepCallbacks A) (pCallback : A) :
    Option (SleepCallbacks A) :=
  (searchCallback m.pNext pCallback fuel none m.pFirst).map fun found =>
    match found.2 with
    | none => m
    | some pCurrent => unlinkCallback m found.1 pCurrent

omit [DecidableEq A] in
/-- The loop of `saveRegistered` and `restoreRegistered`: the callbacks it calls. -/
def visitRegistered (pNext : A → Option A) : Nat → Option A → Option (List A)
  | _, none => some []
  | 0, some _ => none
  | fuel + 1, some pCurrent =>
    (visitRegistered pNext fuel (pNext pCurrent)).map fun rest => pCurrent :: rest

/-- The memory holds the callbacks `xs`, and `pLast` is the last of them. -/
structure HoldsCallbacks (m : SleepCallbacks A) (xs : List A) : Prop where
  chain : Chain m.pNext m.pFirst xs
  nodup : xs.Nodup
  last : m.pLast = xs.getLast?

theorem register_first {m : SleepCallbacks A} (x : A) (h : m.pFirst = none) :
    registerForSleep m x = some
      { pNext := Function.update m.pNext x none, pFirst := some x, pLast := some x } := by
  simp only [registerForSleep, h]

theorem register_next {m : SleepCallbacks A} {first last : A} (x : A) (h : m.pFirst = some first)
    (hlast : m.pLast = some last) :
    registerForSleep m x = some
      { pNext := Function.update (Function.update m.pNext x none) last (some x)
        pFirst := some first
        pLast := some x } := by
  simp only [registerForSleep, h, hlast, Option.map_some]

theorem register_holds {m : SleepCallbacks A} {xs : List A} {x : A} (h : HoldsCallbacks m xs)
    (hx : x ∉ xs) : ∃ m', registerForSleep m x = some m' ∧ HoldsCallbacks m' (xs ++ [x]) := by
  have hnodup : (xs ++ [x]).Nodup := List.nodup_append.mpr
    ⟨h.nodup, List.nodup_singleton x, fun y hy z hz hyz => hx (List.mem_singleton.mp hz ▸ hyz ▸ hy)⟩
  rcases List.eq_nil_or_concat' xs with rfl | ⟨front, last, rfl⟩
  · refine ⟨_, register_first x h.chain, ⟨rfl, ?_⟩, hnodup, by simp⟩
    exact Function.update_self ..
  · have hlast : m.pLast = some last := h.last.trans (by simp)
    obtain ⟨first, hfirst⟩ := chain_first h.chain
    refine ⟨_, register_next x hfirst hlast, ?_, hnodup, by simp⟩
    rw [← hfirst]
    exact chain_push h.chain h.nodup hx

/-- An absent callback is not found, however far the search has come. -/
theorem search_absent {pNext : A → Option A} {x : A} {xs : List A} {fuel : Nat}
    {pPrev p : Option A} (h : Chain pNext p xs) (hx : x ∉ xs) (hfuel : xs.length ≤ fuel) :
    ∃ pPrev', searchCallback pNext x fuel pPrev p = some (pPrev', none) := by
  induction xs generalizing fuel pPrev p with
  | nil =>
    have hnone : p = none := h
    subst hnone
    exact ⟨pPrev, by simp only [searchCallback]⟩
  | cons y ys ih =>
    obtain ⟨rfl, hrest⟩ := h
    obtain ⟨fuel, rfl⟩ : ∃ n, fuel = n + 1 := ⟨fuel - 1, by simp at hfuel; omega⟩
    rw [List.mem_cons, not_or] at hx
    simp only [searchCallback, if_neg (Ne.symm hx.1)]
    exact ih hrest hx.2 (by simpa using hfuel)

theorem search_found {pNext : A → Option A} {x : A} {seen front back : List A} {fuel : Nat}
    {p : Option A} (h : Chain pNext p (front ++ x :: back)) (hx : x ∉ front)
    (hfuel : (front ++ x :: back).length ≤ fuel) :
    searchCallback pNext x fuel seen.getLast? p = some ((seen ++ front).getLast?, some x) := by
  induction front generalizing fuel seen p with
  | nil =>
    obtain ⟨rfl, -⟩ := h
    obtain ⟨fuel, rfl⟩ : ∃ n, fuel = n + 1 := ⟨fuel - 1, by simp at hfuel; omega⟩
    simp only [searchCallback, if_true, List.append_nil]
  | cons y front ih =>
    obtain ⟨rfl, hrest⟩ := h
    obtain ⟨fuel, rfl⟩ : ∃ n, fuel = n + 1 := ⟨fuel - 1, by simp at hfuel; omega⟩
    rw [List.mem_cons, not_or] at hx
    have hfuel' : (front ++ x :: back).length ≤ fuel := by simpa using hfuel
    have := @ih (seen ++ [y]) fuel _ hrest hx.2 hfuel'
    simp only [searchCallback, if_neg (Ne.symm hx.1)]
    simpa using this

/-- The callback before `x` is linked to the one behind it, and both end pointers follow. -/
theorem unlink_callback_holds {m : SleepCallbacks A} {front back : List A} {x : A}
    (h : HoldsCallbacks m (front ++ x :: back)) :
    HoldsCallbacks (unlinkCallback m front.getLast? x) (front ++ back) := by
  have hnodup := h.nodup
  have hsub : (front ++ back).Nodup :=
    hnodup.sublist (List.Sublist.append_left (List.sublist_cons_self x back) front)
  have hnext : Chain m.pNext (m.pNext x) back := chain_next h.chain
  have hxback : x ∉ back := (List.nodup_cons.mp (List.nodup_append.mp hnodup).2.1).1
  -- `x` is the last callback exactly where nothing is behind it
  have hlast : m.pLast = some x ↔ back = [] := by
    rw [h.last]
    cases back with
    | nil => simp
    | cons b back =>
      have hmem : (b :: back).getLast? ≠ some x := fun heq => hxback (List.mem_of_getLast? heq)
      simpa using hmem
  have hkept : back ≠ [] → (front ++ x :: back).getLast? = (front ++ back).getLast? := by
    intro hback
    obtain ⟨b, rest, rfl⟩ := List.exists_cons_of_ne_nil hback
    simp
  rcases List.eq_nil_or_concat' front with rfl | ⟨init, prev, rfl⟩
  · refine ⟨hnext, hsub, ?_⟩
    show (if m.pLast = some x then m.pNext x else m.pLast) = back.getLast?
    by_cases hback : back = []
    · rw [if_pos (hlast.mpr hback)]
      subst hback
      exact hnext
    · rw [if_neg (mt hlast.mp hback), h.last]
      exact hkept hback
  · have hbefore : (init ++ [prev]).getLast? = some prev := by simp
    rw [hbefore]
    refine ⟨chain_unlink h.chain h.nodup, hsub, ?_⟩
    show (if m.pLast = some x then some prev else m.pLast) = _
    by_cases hback : back = []
    · rw [if_pos (hlast.mpr hback)]
      subst hback
      simp
    · rw [if_neg (mt hlast.mp hback), h.last]
      exact hkept hback

theorem unregister_holds {m : SleepCallbacks A} {xs : List A} {x : A} {fuel : Nat}
    (h : HoldsCallbacks m xs) (hfuel : xs.length ≤ fuel) :
    ∃ m', unregisterForSleep fuel m x = some m' ∧ HoldsCallbacks m' (xs.erase x) := by
  by_cases hx : x ∈ xs
  · obtain ⟨front, back, hxfront, rfl, herase⟩ := List.exists_erase_eq hx
    have hfound := @search_found A _ m.pNext x [] front back fuel m.pFirst h.chain hxfront hfuel
    rw [herase]
    refine ⟨_, ?_, unlink_callback_holds h⟩
    simp only [unregisterForSleep]
    rw [List.getLast?_nil, List.nil_append] at hfound
    rw [hfound]
    rfl
  · obtain ⟨pPrev', habsent⟩ := @search_absent A _ m.pNext x xs fuel none m.pFirst h.chain hx hfuel
    rw [List.erase_of_not_mem hx]
    refine ⟨m, ?_, h⟩
    simp only [unregisterForSleep, habsent, Option.map_some]

omit [DecidableEq A] in
theorem visit_registered {pNext : A → Option A} {p : Option A} {xs : List A} {fuel : Nat}
    (h : Chain pNext p xs) (hfuel : xs.length ≤ fuel) :
    visitRegistered pNext fuel p = some xs := by
  induction xs generalizing fuel p with
  | nil =>
    have hnone : p = none := h
    subst hnone
    simp only [visitRegistered]
  | cons x xs ih =>
    obtain ⟨rfl, hrest⟩ := h
    obtain ⟨fuel, rfl⟩ : ∃ n, fuel = n + 1 := ⟨fuel - 1, by simp at hfuel; omega⟩
    simp only [visitRegistered, ih hrest (by simpa using hfuel), Option.map_some]

/-- The configuration registers of the core that retention loses. -/
structure CoreRegs where
  icache_mode_reg : BitVec 8
  dcache_mode_reg : BitVec 24
  dcache_control_reg : BitVec 24
  yMem_mode_reg : BitVec 24
deriving DecidableEq

/-- The notification a registered callback gets. -/
inductive SleepNotify (A : Type) where
  | enter (pCallback : A)
  | leave (pCallback : A)
deriving DecidableEq

inductive PrcmuMsg where
  | goInRetention
  | endOfBoot
deriving DecidableEq

/-- The services by which the host keeps the core awake. -/
inductive UlpService where
  | forceWakeUp
  | allowSleep
deriving DecidableEq

/-- What the code does to the outside. -/
inductive UlpEvent (A : Type) where
  | traceUser (code : BitVec 24)
  | notify (call : SleepNotify A)
  | sendMsg (msg : PrcmuMsg)
  | maskInterrupts
  | acknowledge (service : UlpService)

def traceEntry : BitVec 24 := 0x746F8C
def traceExit : BitVec 24 := traceEntry + 1
def traceAllow : BitVec 24 := 0xE5B200
def tracePrevent : BitVec 24 := traceAllow + 0x100

structure Ulp (A : Type) where
  callbacks : SleepCallbacks A
  isSleeping : BitVec 24
  sleepCounter : BitVec 24
  forceWakeup : BitVec 24
  regs : CoreRegs
  coreState : CoreRegs
  events : List (UlpEvent A)

namespace Ulp

omit [DecidableEq A] in
/-- After the boot; the callbacks and the saved registers hold anything. -/
def boot (pNext : A → Option A) (regs coreState : CoreRegs) : Ulp A where
  callbacks := ⟨pNext, none, none⟩
  isSleeping := 0
  sleepCounter := 0
  forceWakeup := 1
  regs := regs
  coreState := coreState
  events := []

omit [DecidableEq A] in
def allowSleep (s : Ulp A) : Ulp A :=
  { s with
    sleepCounter := s.sleepCounter - 1
    events := s.events ++ [.traceUser (traceAllow + ((s.sleepCounter - 1) &&& 0xff))] }

omit [DecidableEq A] in
def preventSleep (s : Ulp A) : Ulp A :=
  { s with
    sleepCounter := s.sleepCounter + 1
    events := s.events ++ [.traceUser (tracePrevent + ((s.sleepCounter + 1) &&& 0xff))] }

omit [DecidableEq A] in
/-- `ULP_ForceWakeUp` and `ULP_AllowSleep` set and clear `forceWakeup` for the host. -/
def serve (s : Ulp A) (service : UlpService) : Ulp A :=
  { s with
    forceWakeup := match service with
      | .forceWakeUp => 1
      | .allowSleep => 0
    events := s.events ++ [.acknowledge service] }

omit [DecidableEq A] in
/-- Past the test: the callbacks are called, the registers saved, the power goes. -/
def goToSleep (fuel : Nat) (s : Ulp A) : Option (Ulp A) :=
  (visitRegistered s.callbacks.pNext fuel s.callbacks.pFirst).map fun visited =>
    { s with
      isSleeping := 1
      coreState := s.regs
      events := s.events ++ .traceUser traceEntry :: visited.map (fun x => .notify (.enter x)) ++
        [.sendMsg .goInRetention] }

omit [DecidableEq A] in
def enter (fuel : Nat) (s : Ulp A) : Option (Ulp A) :=
  if s.forceWakeup = 0 ∧ s.sleepCounter.toInt < 0 then s.goToSleep fuel else some s

omit [DecidableEq A] in
/-- The core starts again with other contents of its registers. -/
def powerOn (s : Ulp A) (cold : CoreRegs) : Ulp A := { s with regs := cold }

omit [DecidableEq A] in
def sleepWakeup (fuel : Nat) (s : Ulp A) : Option (Ulp A) :=
  (visitRegistered s.callbacks.pNext fuel s.callbacks.pFirst).map fun visited =>
    { s with
      regs := s.coreState
      isSleeping := 0
      sleepCounter := 0
      events := s.events ++ .maskInterrupts :: .traceUser traceExit ::
        visited.map (fun x => .notify (.leave x)) ++ [.sendMsg .endOfBoot] }

end Ulp
end Codinalte.Mpc
