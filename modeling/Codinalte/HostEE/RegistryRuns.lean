import Codinalte.HostEE.Registry
import Mathlib.Data.List.Nodup
import Mathlib.Data.List.Perm.Subperm
import Mathlib.Data.Int.Init
import Mathlib.Tactic.SplitIfs

/-! A channel is on the list from its creation to the close of its last user, with the services and
references that the calls have left; a call that fails changes nothing, as long as no allocation for
a service fails and no counter overflows. -/

namespace Codinalte.HostEE
open Codinalte.Machine

section Matching
variable {mem : Nat → ServiceElem} {xs : List Nat} {k : Nat × Nat}

theorem key_eq_iff (e : ServiceElem) (handler contextHandler : Nat) :
    e.key = (handler, contextHandler) ↔ e.handler = handler ∧ e.contextHandler = contextHandler :=
  Prod.mk.injEq .. ▸ Iff.rfl

/-- Either nothing matches, or the first element that does is counted up. -/
theorem match_add (pToAdd : Nat) (xs : List Nat) :
    ((∀ x ∈ xs, (mem x).key ≠ (mem pToAdd).key) ∧
      matchList (matchingServiceAdd pToAdd) xs mem = (none, mem)) ∨
    ∃ a ∈ xs, (mem a).key = (mem pToAdd).key ∧
      matchList (matchingServiceAdd pToAdd) xs mem = (some a, Function.update mem a (mem a).up) := by
  induction xs with
  | nil => exact .inl ⟨fun _ hx => absurd hx List.not_mem_nil, rfl⟩
  | cons x xs ih =>
    by_cases hx : (mem x).key = (mem pToAdd).key
    · right
      refine ⟨x, List.mem_cons_self .., hx, ?_⟩
      simp only [matchList, matchingServiceAdd, if_pos ((key_eq_iff _ _ _).mp hx), if_true]
    · have hskip : matchList (matchingServiceAdd pToAdd) (x :: xs) mem =
          matchList (matchingServiceAdd pToAdd) xs mem := by
        simp only [matchList, matchingServiceAdd, if_neg (fun h => hx ((key_eq_iff _ _ _).mpr h)),
          Bool.false_eq_true, if_false]
      rw [hskip]
      rcases ih with ⟨hall, heq⟩ | ⟨a, ha, hkey, heq⟩
      · left
        refine ⟨?_, heq⟩
        intro y hy
        rcases List.mem_cons.mp hy with rfl | hmem
        · exact hx
        · exact hall y hmem
      · exact .inr ⟨a, List.mem_cons_of_mem _ ha, hkey, heq⟩

theorem match_remove_none (handler contextHandler : Nat) (found : Option Nat)
    (hall : ∀ x ∈ xs, (mem x).key ≠ (handler, contextHandler)) :
    matchList (matchingServiceRemove handler contextHandler) xs ⟨mem, found⟩ =
      (none, ⟨mem, found⟩) := by
  induction xs with
  | nil => rfl
  | cons x xs ih =>
    have hx := hall x (List.mem_cons_self ..)
    simp only [matchList, matchingServiceRemove,
      if_neg (fun h => hx ((key_eq_iff _ _ _).mpr h)), Bool.false_eq_true, if_false]
    exact ih fun y hy => hall y (List.mem_cons_of_mem _ hy)

/-- With every key once, the loop counts one element down, and stops there or finds no other. -/
theorem match_remove (handler contextHandler : Nat)
    (hkeys : (xs.map fun x => (mem x).key).Nodup) :
    ((∀ x ∈ xs, (mem x).key ≠ (handler, contextHandler)) ∧
      matchList (matchingServiceRemove handler contextHandler) xs ⟨mem, none⟩ =
        (none, ⟨mem, none⟩)) ∨
    ∃ a ∈ xs, (mem a).key = (handler, contextHandler) ∧
      matchList (matchingServiceRemove handler contextHandler) xs ⟨mem, none⟩ =
        (if (mem a).down.refCounter = 0 then some a else none,
          ⟨Function.update mem a (mem a).down, some a⟩) := by
  induction xs with
  | nil => exact .inl ⟨fun _ hx => absurd hx List.not_mem_nil, rfl⟩
  | cons x xs ih =>
    rw [List.map_cons, List.nodup_cons] at hkeys
    by_cases hx : (mem x).key = (handler, contextHandler)
    · right
      refine ⟨x, List.mem_cons_self .., hx, ?_⟩
      -- a count that stays above zero lets the scan go on, and no other element has the key
      have hothers : ∀ y ∈ xs, (Function.update mem x (mem x).down y).key ≠
          (handler, contextHandler) := by
        intro y hy hkey
        by_cases hyx : y = x
        · subst hyx
          exact hkeys.1 (List.mem_map_of_mem hy)
        · rw [Function.update_of_ne hyx] at hkey
          exact hkeys.1 (List.mem_map.mpr ⟨y, hy, hkey.trans hx.symm⟩)
      simp only [matchList, matchingServiceRemove, if_pos ((key_eq_iff _ _ _).mp hx),
        decide_eq_true_eq]
      by_cases hzero : (mem x).down.refCounter = 0
      · rw [if_pos hzero, if_pos hzero]
      · rw [if_neg hzero, if_neg hzero]
        exact match_remove_none handler contextHandler (some x) hothers
    · have hskip : matchList (matchingServiceRemove handler contextHandler) (x :: xs) ⟨mem, none⟩ =
          matchList (matchingServiceRemove handler contextHandler) xs ⟨mem, none⟩ := by
        simp only [matchList, matchingServiceRemove,
          if_neg (fun h => hx ((key_eq_iff _ _ _).mpr h)), Bool.false_eq_true, if_false]
      rw [hskip]
      rcases ih hkeys.2 with ⟨hall, heq⟩ | ⟨a, ha, hkey, heq⟩
      · left
        refine ⟨?_, heq⟩
        intro y hy
        rcases List.mem_cons.mp hy with rfl | hmem
        · exact hx
        · exact hall y hmem
      · exact .inr ⟨a, List.mem_cons_of_mem _ ha, hkey, heq⟩

theorem key_inj (hkeys : (xs.map fun x => (mem x).key).Nodup) {x a : Nat} (hx : x ∈ xs)
    (ha : a ∈ xs) (hkey : (mem x).key = (mem a).key) : x = a :=
  List.inj_on_of_nodup_map hkeys hx ha hkey

theorem map_update_key (f : ServiceElem → ServiceElem)
    (hkeys : (xs.map fun x => (mem x).key).Nodup) {a : Nat} (ha : a ∈ xs)
    (hkey : (mem a).key = k) :
    xs.map (Function.update mem a (f (mem a))) =
      (xs.map mem).map fun e => if e.key = k then f e else e := by
  rw [List.map_map]
  apply List.map_congr_left
  intro x hx
  by_cases hxa : x = a
  · subst hxa
    rw [Function.update_self]
    exact (if_pos hkey).symm
  · rw [Function.update_of_ne hxa]
    have hne : (mem x).key ≠ k := by
      rw [← hkey]
      exact fun heq => hxa (key_inj hkeys hx ha heq)
    exact (if_neg hne).symm

theorem map_erase_key (hkeys : (xs.map fun x => (mem x).key).Nodup) {a : Nat} (ha : a ∈ xs)
    (hkey : (mem a).key = k) :
    (xs.erase a).map mem = (xs.map mem).filter fun e => e.key ≠ k := by
  have hnodup : xs.Nodup := List.Nodup.of_map _ hkeys
  rw [hnodup.erase_eq_filter, List.filter_map]
  congr 1
  apply List.filter_congr
  intro x hx
  by_cases hxa : x = a
  · subst hxa
    simp [hkey]
  · have hne : (mem x).key ≠ k := by
      rw [← hkey]
      exact fun heq => hxa (key_inj hkeys hx ha heq)
    simp [hxa, hne]

end Matching

/-- What a channel is to its users: how many there are, the references of bindings, and the services
with their registrations. -/
structure ChannelEntry where
  refCounter : Nat
  bindRefCounter : Nat
  isShared : Bool
  services : List ServiceElem
deriving DecidableEq

namespace ChannelEntry

def register (e : ChannelEntry) (k : Nat × Nat) : ChannelEntry :=
  if ∃ x ∈ e.services, x.key = k then
    { e with services := e.services.map fun x => if x.key = k then x.up else x }
  else { e with services := e.services ++ [⟨k.1, k.2, 1⟩] }

def countDown (e : ChannelEntry) (k : Nat × Nat) : ChannelEntry :=
  { e with services := e.services.map fun x => if x.key = k then x.down else x }

def dropService (e : ChannelEntry) (k : Nat × Nat) : ChannelEntry :=
  { e with services := e.services.filter fun x => x.key ≠ k }

end ChannelEntry

def Registry.entry (s : Registry) (p : Nat) : Option ChannelEntry :=
  if p ∈ s.channelList then
    some ⟨(s.channel p).refCounter, (s.channel p).bindRefCounter, s.isShared p,
      (s.channel p).services.map s.serviceElem⟩
  else none

/-- What a call does to the one channel it is about. -/
inductive ChannelStep : RegistryCall → Answer → Nat → Option ChannelEntry → Option ChannelEntry → Prop
  | refused {call answer p o} (herror : answer.isError = true) : ChannelStep call answer p o o
  | created {flags allocations p} :
    ChannelStep (.createChannel flags true allocations) (.created p) p none
      (some ⟨1, 0, decide (flags = NMF_CHANNEL_SHARED), []⟩)
  | opened {allocations p} {e : ChannelEntry} (hshared : e.isShared = true)
      (hroom : e.refCounter + 1 < 4294967296) :
    ChannelStep (.createChannel NMF_CHANNEL_SHARED true allocations) (.created p) p (some e)
      (some { e with refCounter := e.refCounter + 1 })
  | closed {p} {e : ChannelEntry} (hshared : e.isShared = true) (hmany : 1 < e.refCounter) :
    ChannelStep (.closeChannel p) .ok p (some e) (some { e with refCounter := e.refCounter - 1 })
  | destroyed {p} {e : ChannelEntry} (hlast : e.isShared = true → e.refCounter ≤ 1)
      (hservices : e.services = []) (hbindings : e.bindRefCounter = 0) :
    ChannelStep (.closeChannel p) .ok p (some e) none
  | registered {p k pToAdd} {e : ChannelEntry}
      (hroom : ∀ x ∈ e.services, x.key = k → x.refCounter + 1 < 4294967296) :
    ChannelStep (.registerService p k.1 k.2 pToAdd) .ok p (some e) (some (e.register k))
  | countedDown {p k} {e : ChannelEntry} {x : ServiceElem} (hx : x ∈ e.services) (hkey : x.key = k)
      (hmore : x.down.refCounter ≠ 0) :
    ChannelStep (.unregisterService p k.1 k.2) .ok p (some e) (some (e.countDown k))
  | dropped {p k} {e : ChannelEntry} {x : ServiceElem} (hx : x ∈ e.services) (hkey : x.key = k)
      (hlast : x.down.refCounter = 0) :
    ChannelStep (.unregisterService p k.1 k.2) .ok p (some e) (some (e.dropService k))
  | bound {p} {e : ChannelEntry} (hroom : e.bindRefCounter + 1 < 4294967296) :
    ChannelStep (.addRef p) .ok p (some e)
      (some { e with bindRefCounter := e.bindRefCounter + 1 })
  | unbound {p} {e : ChannelEntry} (hpos : e.bindRefCounter ≠ 0) :
    ChannelStep (.removeRef p) .ok p (some e)
      (some { e with bindRefCounter := e.bindRefCounter - 1 })

section Log

abbrev CallLog := List (RegistryCall × Answer)

/-- How many of the calls were of the one kind, less those of the other. -/
def balance (up down : RegistryCall × Answer → Bool) (log : CallLog) : Int :=
  log.countP up - log.countP down

def users (p : Nat) : CallLog → Int :=
  balance (fun c => c.2 == .created p) (fun c => c == (.closeChannel p, .ok))

def bindings (p : Nat) : CallLog → Int :=
  balance (fun c => c == (.addRef p, .ok)) (fun c => c == (.removeRef p, .ok))

def registers (p : Nat) (k : Nat × Nat) : RegistryCall × Answer → Bool
  | (.registerService q handler contextHandler _, .ok) => q == p && (handler, contextHandler) == k
  | _ => false

def registrations (p : Nat) (k : Nat × Nat) : CallLog → Int :=
  balance (registers p k) (fun c => c == (.unregisterService p k.1 k.2, .ok))

theorem balance_snoc (up down : RegistryCall × Answer → Bool) (log : CallLog)
    (c : RegistryCall × Answer) : balance up down (log ++ [c]) =
      balance up down log + (if up c then 1 else 0) - if down c then 1 else 0 := by
  unfold balance
  rw [List.countP_append, List.countP_append, List.countP_singleton, List.countP_singleton]
  split_ifs <;> omega

variable {p q : Nat} {call : RegistryCall} {answer : Answer} {log : CallLog}
  {o o' : Option ChannelEntry}

theorem users_snoc (p : Nat) (log : CallLog) (c : RegistryCall × Answer) :
    users p (log ++ [c]) = users p log + (if c.2 = .created p then 1 else 0) -
      if c = (.closeChannel p, .ok) then 1 else 0 := by
  unfold users
  rw [balance_snoc]
  simp only [beq_iff_eq]

theorem bindings_snoc (p : Nat) (log : CallLog) (c : RegistryCall × Answer) :
    bindings p (log ++ [c]) = bindings p log + (if c = (.addRef p, .ok) then 1 else 0) -
      if c = (.removeRef p, .ok) then 1 else 0 := by
  unfold bindings
  rw [balance_snoc]
  simp only [beq_iff_eq]

theorem registrations_snoc (p : Nat) (k : Nat × Nat) (log : CallLog) (c : RegistryCall × Answer) :
    registrations p k (log ++ [c]) = registrations p k log + (if registers p k c then 1 else 0) -
      if c = (.unregisterService p k.1 k.2, .ok) then 1 else 0 := by
  unfold registrations
  rw [balance_snoc]
  simp only [beq_iff_eq]

/-- The three balances of one channel are as before. -/
def Silent (q : Nat) (c : RegistryCall × Answer) (log : CallLog) : Prop :=
  users q (log ++ [c]) = users q log ∧ bindings q (log ++ [c]) = bindings q log ∧
    ∀ k, registrations q k (log ++ [c]) = registrations q k log

theorem silent_of_error (herror : answer.isError = true) : Silent q (call, answer) log := by
  cases answer with
  | ok | created => cases herror
  | invalidParameter | noMoreMemory =>
    refine ⟨?_, ?_, ?_⟩
    · simp [users_snoc]
    · simp [bindings_snoc]
    · intro k
      cases call <;> simp [registrations_snoc, registers]

/-- A call is about one channel. -/
theorem silent_of_ne (h : ChannelStep call answer p o o') (hq : q ≠ p) :
    Silent q (call, answer) log := by
  have hpq : p ≠ q := Ne.symm hq
  cases h with
  | refused herror => exact silent_of_error herror
  | _ =>
    refine ⟨?_, ?_, ?_⟩
    · simp [users_snoc, hpq]
    · simp [bindings_snoc, hpq]
    · intro k
      simp [registrations_snoc, registers, hpq]

end Log

/-- The counters of a channel are what the calls have left. -/
structure EntryInv (p : Nat) (log : CallLog) (e : ChannelEntry) : Prop where
  counted : users p log = e.refCounter
  used : 0 < e.refCounter ∧ e.refCounter < 4294967296
  alone : e.isShared = false → e.refCounter = 1
  bound : bindings p log = e.bindRefCounter
  keys : (e.services.map ServiceElem.key).Nodup
  registered : ∀ x ∈ e.services, registrations p x.key log = x.refCounter ∧
    0 < x.refCounter ∧ x.refCounter < 4294967296
  unregistered : ∀ k, (∀ x ∈ e.services, x.key ≠ k) → registrations p k log = 0

def ChannelInv (p : Nat) (log : CallLog) : Option ChannelEntry → Prop
  | none => users p log = 0 ∧ bindings p log = 0 ∧ ∀ k, registrations p k log = 0
  | some e => EntryInv p log e

section Entries
variable {p q : Nat} {call : RegistryCall} {answer : Answer} {log : CallLog}
  {o o' : Option ChannelEntry} {e : ChannelEntry} {k : Nat × Nat}

theorem channel_inv_silent (hinv : ChannelInv p log o) {c : RegistryCall × Answer}
    (h : Silent p c log) : ChannelInv p (log ++ [c]) o := by
  obtain ⟨husers, hbindings, hregistrations⟩ := h
  cases o with
  | none =>
    refine ⟨husers.trans hinv.1, hbindings.trans hinv.2.1, ?_⟩
    exact fun k => (hregistrations k).trans (hinv.2.2 k)
  | some e =>
    refine ⟨husers.trans hinv.counted, hinv.used, hinv.alone, hbindings.trans hinv.bound,
      hinv.keys, ?_, ?_⟩
    · intro x hx
      rw [hregistrations]
      exact hinv.registered x hx
    · intro k hk
      rw [hregistrations]
      exact hinv.unregistered k hk

/-- A call that moves none of the services. -/
theorem EntryInv.keep (hinv : EntryInv p log e) {c : RegistryCall × Answer} {e' : ChannelEntry}
    (hregistrations : ∀ k, registrations p k (log ++ [c]) = registrations p k log)
    (hservices : e'.services = e.services)
    (husers : users p (log ++ [c]) = e'.refCounter)
    (hused : 0 < e'.refCounter ∧ e'.refCounter < 4294967296)
    (halone : e'.isShared = false → e'.refCounter = 1)
    (hbindings : bindings p (log ++ [c]) = e'.bindRefCounter) : EntryInv p (log ++ [c]) e' := by
  refine ⟨husers, hused, halone, hbindings, ?_, ?_, ?_⟩
  · rw [hservices]
    exact hinv.keys
  · intro x hx
    rw [hregistrations]
    exact hinv.registered x (hservices ▸ hx)
  · intro k hk
    rw [hregistrations]
    exact hinv.unregistered k (hservices ▸ hk)

@[simp] theorem up_key (x : ServiceElem) : x.up.key = x.key := by
  simp only [ServiceElem.key, ServiceElem.up]

@[simp] theorem down_key (x : ServiceElem) : x.down.key = x.key := by
  simp only [ServiceElem.key, ServiceElem.down]

theorem up_refCounter {x : ServiceElem} (h : x.refCounter + 1 < 4294967296) :
    x.up.refCounter = x.refCounter + 1 := Nat.mod_eq_of_lt h

theorem down_refCounter {x : ServiceElem} (hpos : 0 < x.refCounter) :
    x.down.refCounter = x.refCounter - 1 := if_neg (Nat.ne_of_gt hpos)

/-- Services changed where they have the key, with their key kept. -/
theorem map_keys (f : ServiceElem → ServiceElem) (hf : ∀ x, (f x).key = x.key)
    (xs : List ServiceElem) :
    (xs.map fun x => if x.key = k then f x else x).map ServiceElem.key =
      xs.map ServiceElem.key := by
  rw [List.map_map]
  apply List.map_congr_left
  intro x hx
  show (if x.key = k then f x else x).key = x.key
  split_ifs
  · exact hf x
  · rfl

/-- The services changed where they have the key, when the registrations of the key move by `d`. -/
theorem EntryInv.change (hinv : EntryInv p log e) {c : RegistryCall × Answer} {d : Int}
    (f : ServiceElem → ServiceElem) (hf : ∀ x, (f x).key = x.key)
    (husers : users p (log ++ [c]) = users p log)
    (hbindings : bindings p (log ++ [c]) = bindings p log)
    (hregistrations : ∀ k', registrations p k' (log ++ [c]) =
      registrations p k' log + if k' = k then d else 0)
    (hcount : ∀ x ∈ e.services, x.key = k → ((f x).refCounter : Int) = x.refCounter + d ∧
      0 < (f x).refCounter ∧ (f x).refCounter < 4294967296)
    (hfound : ∃ x ∈ e.services, x.key = k) :
    EntryInv p (log ++ [c])
      { e with services := e.services.map fun x => if x.key = k then f x else x } := by
  refine ⟨husers.trans hinv.counted, hinv.used, hinv.alone, hbindings.trans hinv.bound, ?_, ?_, ?_⟩
  · show (List.map _ (e.services.map _)).Nodup
    rw [map_keys f hf]
    exact hinv.keys
  · intro x' hx'
    obtain ⟨x, hx, rfl⟩ := List.mem_map.mp hx'
    obtain ⟨hold, hpos, hlt⟩ := hinv.registered x hx
    by_cases hkey : x.key = k
    · obtain ⟨hnew, hpos', hlt'⟩ := hcount x hx hkey
      rw [if_pos hkey, hregistrations, hf, if_pos hkey, hold, hnew]
      exact ⟨rfl, hpos', hlt'⟩
    · rw [if_neg hkey, hregistrations, if_neg hkey, hold]
      exact ⟨Int.add_zero _, hpos, hlt⟩
  · -- the elements keep their keys, so nobody has registered what is still missing
    intro k' hk'
    have hk : ∀ x ∈ e.services, x.key ≠ k' := by
      intro x hx hkey
      refine hk' _ (List.mem_map_of_mem hx) ?_
      split_ifs
      · rw [hf]
        exact hkey
      · exact hkey
    have hne : k' ≠ k := by
      rintro rfl
      obtain ⟨x, hx, hkey⟩ := hfound
      exact hk x hx hkey
    rw [hregistrations, if_neg hne, hinv.unregistered k' hk]
    rfl

theorem registrations_register (pToAdd : Option Nat) (k k' : Nat × Nat) :
    registrations p k' (log ++ [(.registerService p k.1 k.2 pToAdd, .ok)]) =
      registrations p k' log + if k' = k then 1 else 0 := by
  rw [registrations_snoc]
  by_cases hk : k' = k
  · subst hk
    simp [registers]
  · simp [registers, hk, Ne.symm hk]

theorem registrations_unregister (k k' : Nat × Nat) :
    registrations p k' (log ++ [(.unregisterService p k.1 k.2, .ok)]) =
      registrations p k' log + if k' = k then -1 else 0 := by
  rw [registrations_snoc]
  by_cases hk : k' = k
  · subst hk
    simp [registers]
    omega
  · have hne : ¬ (k.1 = k'.1 ∧ k.2 = k'.2) := fun h => hk (Prod.ext h.1.symm h.2.symm)
    simp [registers, hk, hne]

theorem entry_inv_register (hinv : EntryInv p log e) (pToAdd : Option Nat)
    (hroom : ∀ x ∈ e.services, x.key = k → x.refCounter + 1 < 4294967296) :
    EntryInv p (log ++ [(.registerService p k.1 k.2 pToAdd, .ok)]) (e.register k) := by
  have husers : users p (log ++ [(.registerService p k.1 k.2 pToAdd, .ok)]) = users p log := by
    simp [users_snoc]
  have hbindings : bindings p (log ++ [(.registerService p k.1 k.2 pToAdd, .ok)]) =
      bindings p log := by
    simp [bindings_snoc]
  have hregistrations := fun k' => @registrations_register p log pToAdd k k'
  unfold ChannelEntry.register
  split_ifs with hfound
  · refine hinv.change ServiceElem.up up_key husers hbindings hregistrations ?_ hfound
    intro x hx hkey
    rw [up_refCounter (hroom x hx hkey)]
    have hlt := hroom x hx hkey
    omega
  · have hall : ∀ x ∈ e.services, x.key ≠ k := fun x hx hkey => hfound ⟨x, hx, hkey⟩
    refine ⟨husers.trans hinv.counted, hinv.used, hinv.alone, hbindings.trans hinv.bound, ?_, ?_, ?_⟩
    · show ((e.services ++ [(⟨k.1, k.2, 1⟩ : ServiceElem)]).map ServiceElem.key).Nodup
      rw [List.map_append, List.nodup_append]
      refine ⟨hinv.keys, List.nodup_singleton _, ?_⟩
      rintro k₁ hk₁ k₂ hk₂ rfl
      obtain ⟨x, hx, hkey⟩ := List.mem_map.mp hk₁
      exact hall x hx (hkey.trans (List.mem_singleton.mp hk₂))
    · intro x hx
      rcases List.mem_append.mp hx with hmem | hnew
      · rw [hregistrations, if_neg (hall x hmem), Int.add_zero]
        exact hinv.registered x hmem
      · rw [List.mem_singleton.mp hnew, hregistrations]
        show registrations p k log + (if k = k then 1 else 0) = 1 ∧ 0 < 1 ∧ 1 < 4294967296
        rw [if_pos rfl, hinv.unregistered k hall]
        decide
    · intro k' hk'
      have hne : k' ≠ k := by
        rintro rfl
        exact hk' _ (List.mem_append_right _ (List.mem_singleton_self _)) rfl
      rw [hregistrations, if_neg hne, hinv.unregistered k'
        fun x hx => hk' x (List.mem_append_left _ hx)]
      rfl

theorem entry_inv_unregister (hinv : EntryInv p log e) {x : ServiceElem} (hx : x ∈ e.services)
    (hkey : x.key = k) : EntryInv p (log ++ [(.unregisterService p k.1 k.2, .ok)])
      (if x.down.refCounter = 0 then e.dropService k else e.countDown k) := by
  have husers : users p (log ++ [(.unregisterService p k.1 k.2, .ok)]) = users p log := by
    simp [users_snoc]
  have hbindings : bindings p (log ++ [(.unregisterService p k.1 k.2, .ok)]) = bindings p log := by
    simp [bindings_snoc]
  have hregistrations := fun k' => @registrations_unregister p log k k'
  obtain ⟨hcount, hpos, hlt⟩ := hinv.registered x hx
  rw [hkey] at hcount
  have honly : ∀ y ∈ e.services, y.key = k → y = x := fun y hy hy' =>
    List.inj_on_of_nodup_map hinv.keys hy hx (hy'.trans hkey.symm)
  split_ifs with hzero
  · rw [down_refCounter hpos] at hzero
    refine ⟨husers.trans hinv.counted, hinv.used, hinv.alone, hbindings.trans hinv.bound, ?_, ?_, ?_⟩
    · exact hinv.keys.sublist (List.filter_sublist.map _)
    · intro y hy
      obtain ⟨hmem, hne⟩ := List.mem_filter.mp hy
      rw [hregistrations, if_neg (of_decide_eq_true hne), Int.add_zero]
      exact hinv.registered y hmem
    · intro k' hk'
      rw [hregistrations]
      by_cases hk : k' = k
      · rw [if_pos hk, hk, hcount]
        omega
      · rw [if_neg hk, Int.add_zero]
        apply hinv.unregistered
        intro y hy hy'
        refine hk' y (List.mem_filter.mpr ⟨hy, ?_⟩) hy'
        rw [hy']
        exact decide_eq_true hk
  · refine hinv.change ServiceElem.down down_key husers hbindings hregistrations ?_ ⟨x, hx, hkey⟩
    intro y hy hy'
    obtain rfl := honly y hy hy'
    rw [down_refCounter hpos] at hzero ⊢
    omega

theorem channel_inv_step (h : ChannelStep call answer p o o') (hinv : ChannelInv p log o) :
    ChannelInv p (log ++ [(call, answer)]) o' := by
  cases h with
  | refused herror => exact channel_inv_silent hinv (silent_of_error herror)
  | created =>
    obtain ⟨husers, hbindings, hregistrations⟩ := hinv
    have hlt : 1 < 4294967296 := by decide
    refine ⟨?_, ⟨Nat.one_pos, hlt⟩, fun _ => rfl, ?_, List.nodup_nil, ?_, ?_⟩
    · simp [users_snoc, husers]
    · simp [bindings_snoc, hbindings]
    · intro x hx
      cases hx
    · intro k _
      simp [registrations_snoc, registers, hregistrations]
  | opened hshared hroom =>
    refine hinv.keep ?_ rfl ?_ ⟨Nat.succ_pos _, hroom⟩ ?_ ?_
    · intro k
      simp [registrations_snoc, registers]
    · simp [users_snoc, hinv.counted]
    · intro hprivate
      exact absurd (hshared.symm.trans hprivate) (by decide)
    · simp [bindings_snoc, hinv.bound]
  | closed hshared hmany =>
    have hused := hinv.used
    refine hinv.keep ?_ rfl ?_ ?_ ?_ ?_
    · intro k
      simp [registrations_snoc, registers]
    · simp only [users_snoc, hinv.counted]
      simp
      omega
    · dsimp only
      omega
    · intro hprivate
      exact absurd (hshared.symm.trans hprivate) (by decide)
    · simp [bindings_snoc, hinv.bound]
  | @destroyed _ e hlast hservices hbindings =>
    -- the call takes the last user away, so the balance goes back to zero
    have hone : e.refCounter = 1 := by
      have hused := hinv.used
      cases hshared : e.isShared with
      | false => exact hinv.alone hshared
      | true =>
        have hle := hlast hshared
        omega
    refine ⟨?_, ?_, ?_⟩
    · simp [users_snoc, hinv.counted, hone]
    · simp [bindings_snoc, hinv.bound, hbindings]
    · intro k
      have hnone : registrations p k log = 0 := by
        apply hinv.unregistered
        rw [hservices]
        exact fun x hx => absurd hx List.not_mem_nil
      simp [registrations_snoc, registers, hnone]
  | registered hroom => exact entry_inv_register hinv _ hroom
  | countedDown hx hkey hmore =>
    have hnext := entry_inv_unregister hinv hx hkey
    rwa [if_neg hmore] at hnext
  | dropped hx hkey hlast =>
    have hnext := entry_inv_unregister hinv hx hkey
    rwa [if_pos hlast] at hnext
  | bound hroom =>
    refine hinv.keep ?_ rfl ?_ hinv.used hinv.alone ?_
    · intro k
      simp [registrations_snoc, registers]
    · simp [users_snoc, hinv.counted]
    · simp [bindings_snoc, hinv.bound]
  | unbound hpos =>
    refine hinv.keep ?_ rfl ?_ hinv.used hinv.alone ?_
    · intro k
      simp [registrations_snoc, registers]
    · simp [users_snoc, hinv.counted]
    · simp only [bindings_snoc, hinv.bound]
      simp
      omega

end Entries

/-- Every object belongs to one channel, every service is registered once, and the shared channel is
the one that `pSharedChannel` points to. -/
structure MemoryInv (s : Registry) : Prop where
  free : s.channelListLock = false
  channels : s.channelList.Nodup
  keys : ∀ p ∈ s.channelList,
    ((s.channel p).services.map fun a => (s.serviceElem a).key).Nodup
  allocated : ∀ p ∈ s.channelList, p ∈ s.allocated
  owned : ∀ p ∈ s.channelList, ∀ a ∈ (s.channel p).services,
    a ∈ s.allocated ∧ a ∉ s.channelList
  apart : ∀ p ∈ s.channelList, ∀ q ∈ s.channelList, ∀ a ∈ (s.channel p).services,
    a ∈ (s.channel q).services → p = q
  range : ∀ a ∈ s.allocated, 0 < a ∧ a < 4294967296
  shared : ∀ p, s.pSharedChannel = some p ↔ p ∈ s.channelList ∧ s.isShared p = true

theorem memory_inv_init (channel : Nat → ChannelElem) (serviceElem : Nat → ServiceElem) :
    MemoryInv (.init channel serviceElem) := by
  constructor <;> simp [Registry.init]

/-- What a call that fails leaves: a channel that was not made has been written to and freed. -/
structure Unchanged (s t : Registry) : Prop where
  others : ∃ channel log, t = { s with channel := channel, log := log }
  listed : ∀ p ∈ s.channelList, t.channel p = s.channel p

structure Effect (s : Registry) (call : RegistryCall) (t : Registry) (answer : Answer) :
    Prop where
  memory : MemoryInv t
  concerns : ∃ p, ChannelStep call answer p (s.entry p) (t.entry p) ∧
    ∀ q, q ≠ p → t.entry q = s.entry q
  error : answer.isError = true → Unchanged s t

section Refinement
variable {s t : Registry} {p q a : Nat} {call : RegistryCall} {answer : Answer}

theorem entry_of_mem (hp : p ∈ s.channelList) : s.entry p =
    some ⟨(s.channel p).refCounter, (s.channel p).bindRefCounter, s.isShared p,
      (s.channel p).services.map s.serviceElem⟩ := if_pos hp

theorem entry_of_not_mem (hp : p ∉ s.channelList) : s.entry p = none := if_neg hp

theorem entry_congr (hlist : q ∈ t.channelList ↔ q ∈ s.channelList)
    (hchannel : q ∈ s.channelList → t.channel q = s.channel q)
    (hshared : q ∈ s.channelList → t.isShared q = s.isShared q)
    (hmem : q ∈ s.channelList → ∀ a ∈ (s.channel q).services, t.serviceElem a = s.serviceElem a) :
    t.entry q = s.entry q := by
  by_cases hq : q ∈ s.channelList
  · rw [entry_of_mem hq, entry_of_mem (hlist.mpr hq), hchannel hq, hshared hq,
      List.map_congr_left (hmem hq)]
  · rw [entry_of_not_mem hq, entry_of_not_mem (mt hlist.mp hq)]

theorem effect_refused (hinv : MemoryInv s) (herror : answer.isError = true) :
    Effect s call s answer where
  memory := hinv
  concerns := ⟨0, .refused herror, fun _ _ => rfl⟩
  error := fun _ => ⟨⟨s.channel, s.log, rfl⟩, fun _ _ => rfl⟩

/-- A call that moves no object. -/
theorem MemoryInv.keep (hinv : MemoryInv s) (hlock : t.channelListLock = s.channelListLock)
    (hlist : t.channelList = s.channelList)
    (hservices : ∀ p ∈ s.channelList, (t.channel p).services = (s.channel p).services)
    (hkeys : ∀ a, (t.serviceElem a).key = (s.serviceElem a).key ∨ a ∉ s.allocated)
    (hallocated : t.allocated = s.allocated) (hpointer : t.pSharedChannel = s.pSharedChannel)
    (hshared : t.isShared = s.isShared) : MemoryInv t := by
  refine ⟨?_, ?_, ?_, ?_, ?_, ?_, ?_, ?_⟩
  · rw [hlock]
    exact hinv.free
  · rw [hlist]
    exact hinv.channels
  · rw [hlist]
    intro p hp
    rw [hservices p hp]
    have hsame : (s.channel p).services.map (fun a => (t.serviceElem a).key) =
        (s.channel p).services.map fun a => (s.serviceElem a).key := by
      apply List.map_congr_left
      intro a ha
      exact (hkeys a).resolve_right fun hfree => hfree (hinv.owned p hp a ha).1
    rw [hsame]
    exact hinv.keys p hp
  · rw [hlist, hallocated]
    exact hinv.allocated
  · rw [hlist, hallocated]
    intro p hp a ha
    exact hinv.owned p hp a (hservices p hp ▸ ha)
  · rw [hlist]
    intro p hp q hq a ha ha'
    exact hinv.apart p hp q hq a (hservices p hp ▸ ha) (hservices q hq ▸ ha')
  · rw [hallocated]
    exact hinv.range
  · rw [hlist, hpointer, hshared]
    exact hinv.shared

theorem setChannel_self (s : Registry) (p : Nat) : s.setChannel p (s.channel p) = s := by
  unfold Registry.setChannel
  rw [Function.update_eq_self]

theorem setChannel_of_ne (e : ChannelElem) (hq : q ≠ p) :
    (s.setChannel p e).channel q = s.channel q := Function.update_of_ne hq ..

theorem setChannel_at (s : Registry) (p : Nat) (e : ChannelElem) :
    (s.setChannel p e).channel p = e := Function.update_self ..

/-- A call that changes the counters of one channel. -/
theorem effect_counters (hinv : MemoryInv s) {e : ChannelElem} (hp : p ∈ s.channelList)
    (hservices : e.services = (s.channel p).services) (hanswer : answer.isError = false)
    (hstep : ChannelStep call answer p (s.entry p) (some ⟨e.refCounter, e.bindRefCounter,
      s.isShared p, e.services.map s.serviceElem⟩)) :
    Effect s call (s.setChannel p e) answer := by
  have hsame : ∀ q, ((s.setChannel p e).channel q).services = (s.channel q).services := by
    intro q
    by_cases hq : q = p
    · rw [hq, setChannel_at, hservices]
    · rw [setChannel_of_ne e hq]
  refine ⟨?_, ⟨p, ?_, ?_⟩, ?_⟩
  · exact hinv.keep rfl rfl (fun q _ => hsame q) (fun _ => .inl rfl) rfl rfl rfl
  · have hentry : (s.setChannel p e).entry p = some ⟨e.refCounter, e.bindRefCounter,
        s.isShared p, e.services.map s.serviceElem⟩ := by
      refine (entry_of_mem (s := s.setChannel p e) hp).trans ?_
      rw [setChannel_at]
      rfl
    rw [hentry]
    exact hstep
  · intro q hq
    exact entry_congr Iff.rfl (fun _ => setChannel_of_ne e hq) (fun _ => rfl) fun _ _ _ => rfl
  · intro herror
    rw [hanswer] at herror
    cases herror

/-- A call that changes the counter of one service. -/
theorem effect_service (hinv : MemoryInv s) {mem : Nat → ServiceElem} (hp : p ∈ s.channelList)
    (ha : a ∈ (s.channel p).services)
    (hothers : ∀ b ∈ s.allocated, b ≠ a → mem b = s.serviceElem b)
    (hkey : (mem a).key = (s.serviceElem a).key) (hanswer : answer.isError = false)
    (hstep : ChannelStep call answer p (s.entry p) (some ⟨(s.channel p).refCounter,
      (s.channel p).bindRefCounter, s.isShared p, (s.channel p).services.map mem⟩)) :
    Effect s call { s with serviceElem := mem } answer := by
  refine ⟨?_, ⟨p, ?_, ?_⟩, ?_⟩
  · refine hinv.keep rfl rfl (fun _ _ => rfl) ?_ rfl rfl rfl
    intro b
    by_cases hb : b ∈ s.allocated
    · left
      by_cases hba : b = a
      · rw [hba]
        exact hkey
      · show (mem b).key = _
        rw [hothers b hb hba]
    · exact .inr hb
  · have hentry : { s with serviceElem := mem }.entry p = some ⟨(s.channel p).refCounter,
        (s.channel p).bindRefCounter, s.isShared p, (s.channel p).services.map mem⟩ :=
      entry_of_mem hp
    rw [hentry]
    exact hstep
  · intro q hq
    refine entry_congr Iff.rfl (fun _ => rfl) (fun _ => rfl) ?_
    intro hq' b hb
    refine hothers b (hinv.owned q hq' b hb).1 ?_
    rintro rfl
    exact hq (hinv.apart q hq' p hp b hb ha)
  · intro herror
    rw [hanswer] at herror
    cases herror

theorem create_parts_spec (l : Live) (a : Allocations) :
    ((createParts l a).2.2 = true ∧ (createParts l a).2.1 = ⟨1, 0, true, true, true, true, []⟩) ∨
    (createParts l a).2.2 = false ∧
      releaseParts (createParts l a).1 (createParts l a).2.1 = l := by
  obtain ⟨channel, sem, list, mutex, service, message⟩ := a
  cases sem <;> cases list <;> cases mutex <;> cases service <;> cases message <;>
    first | exact .inl ⟨rfl, rfl⟩ | exact .inr ⟨rfl, rfl⟩

theorem not_listed_of_fresh (hinv : MemoryInv s) (hfresh : s.Fresh p) : p ∉ s.channelList :=
  fun hp => hfresh.2.2 (hinv.allocated p hp)

/-- A channel that could not be made leaves nothing behind. -/
theorem effect_not_created (hinv : MemoryInv s) (hfresh : s.Fresh p) {e : ChannelElem}
    {live : Live} (hlive : releaseParts live e = s.live) (allocated : List Nat)
    (hallocated : allocated = s.allocated) :
    Effect s call { s.setChannel p e with
      live := releaseParts live e
      allocated := allocated } .noMoreMemory := by
  subst hallocated
  have hnot := not_listed_of_fresh hinv hfresh
  have hchannel : ∀ q ∈ s.channelList, (s.setChannel p e).channel q = s.channel q := by
    intro q hq
    exact setChannel_of_ne e fun heq => hnot (heq ▸ hq)
  refine ⟨?_, ⟨p, ?_, ?_⟩, ?_⟩
  · refine hinv.keep rfl rfl ?_ (fun _ => .inl rfl) rfl rfl rfl
    intro q hq
    exact congrArg ChannelElem.services (hchannel q hq)
  · rw [entry_congr (s := s) (t := { s.setChannel p e with
      live := releaseParts live e
      allocated := s.allocated }) Iff.rfl (hchannel p) (fun _ => rfl) fun _ _ _ => rfl]
    exact .refused rfl
  · intro q _
    exact entry_congr Iff.rfl (hchannel q) (fun _ => rfl) fun _ _ _ => rfl
  · intro _
    refine ⟨⟨(s.setChannel p e).channel, s.log, ?_⟩, hchannel⟩
    rw [hlive]
    rfl

theorem effect_created (hinv : MemoryInv s) (hfresh : s.Fresh p) (live : Live) (flags : Nat)
    (a : Allocations) (hnone : flags = NMF_CHANNEL_SHARED → s.pSharedChannel = none)
    {pointer : Option Nat}
    (hpointer : pointer = if flags = NMF_CHANNEL_SHARED then some p else s.pSharedChannel) :
    Effect s (.createChannel flags true a)
      { s.setChannel p ⟨1, 0, true, true, true, true, []⟩ with
        live := live
        allocated := p :: s.allocated
        pSharedChannel := pointer
        channelList := s.channelList ++ [p]
        isShared := Function.update s.isShared p (decide (flags = NMF_CHANNEL_SHARED)) }
      (.created p) := by
  have hnot := not_listed_of_fresh hinv hfresh
  have hne : ∀ q ∈ s.channelList, q ≠ p := fun q hq heq => hnot (heq ▸ hq)
  have hchannel : ∀ q, q ≠ p → (s.setChannel p ⟨1, 0, true, true, true, true, []⟩).channel q =
      s.channel q := fun q hq => setChannel_of_ne _ hq
  have hnew : (s.setChannel p ⟨1, 0, true, true, true, true, []⟩).channel p =
      ⟨1, 0, true, true, true, true, []⟩ := setChannel_at ..
  have hmem : ∀ q, q ∈ s.channelList ++ [p] ↔ q ∈ s.channelList ∨ q = p := by simp
  refine ⟨⟨hinv.free, ?_, ?_, ?_, ?_, ?_, ?_, ?_⟩, ⟨p, ?_, ?_⟩, fun herror => by cases herror⟩
  · rw [List.nodup_append]
    refine ⟨hinv.channels, List.nodup_singleton p, ?_⟩
    intro q hq q' hq'
    rw [List.mem_singleton.mp hq']
    exact hne q hq
  · intro q hq
    rcases (hmem q).mp hq with hold | rfl
    · simp only [hchannel q (hne q hold)]
      exact hinv.keys q hold
    · simp only [hnew]
      exact List.nodup_nil
  · intro q hq
    rcases (hmem q).mp hq with hold | rfl
    · exact List.mem_cons_of_mem _ (hinv.allocated q hold)
    · exact List.mem_cons_self ..
  · intro q hq a ha
    rcases (hmem q).mp hq with hold | rfl
    · simp only [hchannel q (hne q hold)] at ha
      obtain ⟨hin, hout⟩ := hinv.owned q hold a ha
      refine ⟨List.mem_cons_of_mem _ hin, fun hlisted => ?_⟩
      rcases (hmem a).mp hlisted with hlisted | rfl
      · exact hout hlisted
      · exact hfresh.2.2 hin
    · simp only [hnew] at ha
      cases ha
  · intro q hq q' hq' a ha ha'
    rcases (hmem q).mp hq with hold | rfl
    · rcases (hmem q').mp hq' with hold' | rfl
      · simp only [hchannel q (hne q hold)] at ha
        simp only [hchannel q' (hne q' hold')] at ha'
        exact hinv.apart q hold q' hold' a ha ha'
      · simp only [hnew] at ha'
        cases ha'
    · simp only [hnew] at ha
      cases ha
  · intro a ha
    rcases List.mem_cons.mp ha with rfl | hold
    · exact ⟨hfresh.1, hfresh.2.1⟩
    · exact hinv.range a hold
  · -- the shared channel is the new one just where it was asked for
    intro q
    rw [hpointer]
    by_cases hq : q = p
    · subst hq
      simp only [hmem, Function.update_self, or_true, true_and, decide_eq_true_eq]
      split_ifs with hshared
      · exact ⟨fun _ => hshared, fun _ => rfl⟩
      · constructor
        · intro hq'
          exact absurd ((hinv.shared q).mp hq').1 hnot
        · exact fun hshared' => absurd hshared' hshared
    · have hiff := hinv.shared q
      simp only [hmem, hq, or_false, Function.update_of_ne hq]
      split_ifs with hshared
      · rw [hnone hshared] at hiff
        constructor
        · intro heq
          exact absurd (Option.some.inj heq).symm hq
        · intro hlisted
          cases hiff.mpr hlisted
      · exact hiff
  · rw [entry_of_not_mem hnot, entry_of_mem ((hmem p).mpr (.inr rfl))]
    simp only [hnew, Function.update_self]
    exact .created
  · intro q hq
    refine entry_congr ?_ (fun _ => hchannel q hq) (fun _ => Function.update_of_ne hq ..)
      fun _ _ _ => rfl
    rw [hmem]
    exact or_iff_left hq

theorem effect_destroyed (hinv : MemoryInv s) (hp : p ∈ s.channelList)
    (hlast : s.isShared p = true → (s.channel p).refCounter ≤ 1)
    (hservices : (s.channel p).services = []) (hbindings : (s.channel p).bindRefCounter = 0) :
    Effect s (.closeChannel p) (s.destroyChannel p) .ok := by
  have hmem : ∀ q, q ∈ (s.destroyChannel p).channelList ↔ q ≠ p ∧ q ∈ s.channelList :=
    fun q => hinv.channels.mem_erase_iff
  have hleft : ∀ a, a ≠ p → a ∈ s.allocated → a ∈ (s.destroyChannel p).allocated :=
    fun a ha hin => (List.mem_erase_of_ne ha).mpr hin
  refine ⟨⟨hinv.free, hinv.channels.erase p, ?_, ?_, ?_, ?_, ?_, ?_⟩, ⟨p, ?_, ?_⟩,
    fun herror => by cases herror⟩
  · exact fun q hq => hinv.keys q ((hmem q).mp hq).2
  · intro q hq
    obtain ⟨hne, hold⟩ := (hmem q).mp hq
    exact hleft q hne (hinv.allocated q hold)
  · intro q hq a ha
    obtain ⟨-, hold⟩ := (hmem q).mp hq
    obtain ⟨hin, hout⟩ := hinv.owned q hold a ha
    refine ⟨hleft a ?_ hin, fun hlisted => hout ((hmem a).mp hlisted).2⟩
    rintro rfl
    exact hout hp
  · intro q hq q' hq' a ha ha'
    exact hinv.apart q ((hmem q).mp hq).2 q' ((hmem q').mp hq').2 a ha ha'
  · exact fun a ha => hinv.range a (List.mem_of_mem_erase ha)
  · -- `pSharedChannel` is cleared with the channel it points to
    intro q
    have hiff := hinv.shared q
    show (if s.pSharedChannel = some p then none else s.pSharedChannel) = some q ↔ _
    rw [hmem]
    by_cases hq : q = p
    · subst hq
      split_ifs with hpointer
      · exact ⟨(fun h => nomatch h), fun h => absurd rfl h.1.1⟩
      · exact ⟨fun heq => absurd heq hpointer, fun h => absurd rfl h.1.1⟩
    · have hkeep : (if s.pSharedChannel = some p then none else s.pSharedChannel) = some q ↔
          s.pSharedChannel = some q := by
        split_ifs with hpointer
        · rw [hpointer]
          exact ⟨(fun h => nomatch h), fun heq => absurd (Option.some.inj heq).symm hq⟩
        · exact Iff.rfl
      rw [hkeep, hiff]
      exact ⟨fun h => ⟨⟨hq, h.1⟩, h.2⟩, fun h => ⟨h.1.2, h.2⟩⟩
  · rw [entry_of_mem hp, entry_of_not_mem fun hlisted => absurd rfl ((hmem p).mp hlisted).1]
    refine .destroyed hlast ?_ hbindings
    rw [hservices]
    rfl
  · intro q hq
    refine entry_congr ?_ (fun _ => rfl) (fun _ => rfl) fun _ _ _ => rfl
    rw [hmem]
    exact and_iff_right hq

/-- A service that is new to the channel. -/
theorem effect_new_service (hinv : MemoryInv s) (hp : p ∈ s.channelList) (hfresh : s.Fresh a)
    {k : Nat × Nat} (pToAdd : Option Nat)
    (hall : ∀ x ∈ (s.channel p).services, (s.serviceElem x).key ≠ k) :
    Effect s (.registerService p k.1 k.2 pToAdd)
      { s.setChannel p { s.channel p with services := (s.channel p).services ++ [a] } with
        serviceElem := Function.update s.serviceElem a ⟨k.1, k.2, 1⟩
        allocated := a :: s.allocated } .ok := by
  have hnew : a ∉ s.channelList := fun hlisted => hfresh.2.2 (hinv.allocated a hlisted)
  have hkept : ∀ b ∈ s.allocated, Function.update s.serviceElem a ⟨k.1, k.2, 1⟩ b =
      s.serviceElem b := by
    intro b hb
    refine Function.update_of_ne ?_ ..
    rintro rfl
    exact hfresh.2.2 hb
  have hmap : ∀ q ∈ s.channelList, ∀ b ∈ (s.channel q).services,
      Function.update s.serviceElem a ⟨k.1, k.2, 1⟩ b = s.serviceElem b :=
    fun q hq b hb => hkept b (hinv.owned q hq b hb).1
  have hat := setChannel_at s p { s.channel p with services := (s.channel p).services ++ [a] }
  have hother : ∀ q, q ≠ p → (s.setChannel p
      { s.channel p with services := (s.channel p).services ++ [a] }).channel q = s.channel q :=
    fun q hq => setChannel_of_ne _ hq
  have hservices : ∀ q ∈ s.channelList, ∀ b, b ∈ ((s.setChannel p
      { s.channel p with services := (s.channel p).services ++ [a] }).channel q).services →
      b ∈ (s.channel q).services ∨ q = p ∧ b = a := by
    intro q hq b hb
    by_cases hqp : q = p
    · subst hqp
      rw [hat] at hb
      rcases List.mem_append.mp hb with hold | hnew
      · exact .inl hold
      · exact .inr ⟨rfl, List.mem_singleton.mp hnew⟩
    · rw [hother q hqp] at hb
      exact .inl hb
  have hentries : ((s.channel p).services ++ [a]).map
      (Function.update s.serviceElem a ⟨k.1, k.2, 1⟩) =
      (s.channel p).services.map s.serviceElem ++ [⟨k.1, k.2, 1⟩] := by
    rw [List.map_append, List.map_congr_left (hmap p hp)]
    congr 1
    exact congrArg (fun x => [x]) (Function.update_self ..)
  refine ⟨⟨hinv.free, hinv.channels, ?_, ?_, ?_, ?_, ?_, hinv.shared⟩, ⟨p, ?_, ?_⟩,
    fun herror => by cases herror⟩
  · intro q hq
    by_cases hqp : q = p
    · subst hqp
      simp only [hat]
      show (List.map (ServiceElem.key ∘ Function.update s.serviceElem a ⟨k.1, k.2, 1⟩)
        ((s.channel q).services ++ [a])).Nodup
      rw [← List.map_map, hentries, List.map_append, List.nodup_append, List.map_map]
      refine ⟨hinv.keys q hq, List.nodup_singleton _, ?_⟩
      rintro k₁ hk₁ k₂ hk₂ rfl
      obtain ⟨x, hx, hkey⟩ := List.mem_map.mp hk₁
      exact hall x hx (hkey.trans (List.mem_singleton.mp hk₂))
    · simp only [hother q hqp]
      have hsame : (s.channel q).services.map
          (fun b => (Function.update s.serviceElem a ⟨k.1, k.2, 1⟩ b).key) =
          (s.channel q).services.map fun b => (s.serviceElem b).key :=
        List.map_congr_left fun b hb => congrArg ServiceElem.key (hmap q hq b hb)
      rw [hsame]
      exact hinv.keys q hq
  · exact fun q hq => List.mem_cons_of_mem _ (hinv.allocated q hq)
  · intro q hq b hb
    rcases hservices q hq b hb with hold | ⟨-, rfl⟩
    · obtain ⟨hin, hout⟩ := hinv.owned q hq b hold
      exact ⟨List.mem_cons_of_mem _ hin, hout⟩
    · exact ⟨List.mem_cons_self .., hnew⟩
  · intro q hq q' hq' b hb hb'
    rcases hservices q hq b hb with hold | ⟨rfl, rfl⟩ <;>
      rcases hservices q' hq' b hb' with hold' | ⟨rfl, heq⟩
    · exact hinv.apart q hq q' hq' b hold hold'
    · exact absurd (heq ▸ (hinv.owned q hq b hold).1) hfresh.2.2
    · exact absurd (hinv.owned q' hq' b hold').1 hfresh.2.2
    · rfl
  · intro b hb
    rcases List.mem_cons.mp hb with rfl | hold
    · exact ⟨hfresh.1, hfresh.2.1⟩
    · exact hinv.range b hold
  · -- on the entry this is a registration that finds no service
    have hnot : ¬ ∃ x ∈ (s.channel p).services.map s.serviceElem, x.key = k := by
      rintro ⟨x, hx, hkey⟩
      obtain ⟨b, hb, rfl⟩ := List.mem_map.mp hx
      exact hall b hb hkey
    have hroom : ∀ x ∈ (s.channel p).services.map s.serviceElem, x.key = k →
        x.refCounter + 1 < 4294967296 := fun x hx hkey => absurd ⟨x, hx, hkey⟩ hnot
    have hstep := @ChannelStep.registered p k pToAdd ⟨(s.channel p).refCounter,
      (s.channel p).bindRefCounter, s.isShared p, (s.channel p).services.map s.serviceElem⟩ hroom
    unfold ChannelEntry.register at hstep
    rw [if_neg hnot] at hstep
    rw [entry_of_mem hp]
    refine Eq.mp (congrArg _ (Eq.symm ?_)) hstep
    refine (if_pos hp).trans ?_
    simp only [hat]
    rw [hentries]
    rfl
  · intro q hq
    exact entry_congr Iff.rfl (fun _ => hother q hq) (fun _ => rfl) fun hq' b hb => hmap q hq' b hb

/-- The last registration of a service is taken back. -/
theorem effect_dropped (hinv : MemoryInv s) (hp : p ∈ s.channelList)
    (ha : a ∈ (s.channel p).services) {k : Nat × Nat} (hkey : (s.serviceElem a).key = k)
    (hlast : (s.serviceElem a).down.refCounter = 0) :
    Effect s (.unregisterService p k.1 k.2)
      { s.setChannel p { s.channel p with services := (s.channel p).services.erase a } with
        serviceElem := Function.update s.serviceElem a (s.serviceElem a).down
        allocated := s.allocated.erase a } .ok := by
  have hnodup : (s.channel p).services.Nodup := List.Nodup.of_map _ (hinv.keys p hp)
  have hat := setChannel_at s p { s.channel p with services := (s.channel p).services.erase a }
  have hother : ∀ q, q ≠ p → (s.setChannel p
      { s.channel p with services := (s.channel p).services.erase a }).channel q = s.channel q :=
    fun q hq => setChannel_of_ne _ hq
  have hservices : ∀ q ∈ s.channelList, ∀ b, b ∈ ((s.setChannel p
      { s.channel p with services := (s.channel p).services.erase a }).channel q).services →
      b ∈ (s.channel q).services ∧ b ≠ a := by
    intro q hq b hb
    by_cases hqp : q = p
    · subst hqp
      rw [hat] at hb
      exact (hnodup.mem_erase_iff.mp hb).symm
    · rw [hother q hqp] at hb
      refine ⟨hb, ?_⟩
      rintro rfl
      exact hqp (hinv.apart q hq p hp b hb ha)
  have hmem : ∀ b, b ≠ a → Function.update s.serviceElem a (s.serviceElem a).down b =
      s.serviceElem b := fun b hb => Function.update_of_ne hb ..
  have hmap : ((s.channel p).services.erase a).map
      (Function.update s.serviceElem a (s.serviceElem a).down) =
      ((s.channel p).services.map s.serviceElem).filter fun e => e.key ≠ k := by
    rw [← map_erase_key (hinv.keys p hp) ha hkey]
    exact List.map_congr_left fun b hb => hmem b (hnodup.mem_erase_iff.mp hb).1
  refine ⟨⟨hinv.free, hinv.channels, ?_, ?_, ?_, ?_, ?_, hinv.shared⟩, ⟨p, ?_, ?_⟩,
    fun herror => by cases herror⟩
  · intro q hq
    have hsame : ((s.setChannel p
        { s.channel p with services := (s.channel p).services.erase a }).channel q).services.map
        (fun b => (Function.update s.serviceElem a (s.serviceElem a).down b).key) =
        ((s.setChannel p
        { s.channel p with services := (s.channel p).services.erase a }).channel q).services.map
        fun b => (s.serviceElem b).key :=
      List.map_congr_left fun b hb =>
        congrArg ServiceElem.key (hmem b (hservices q hq b hb).2)
    refine Eq.mpr (congrArg List.Nodup hsame) ?_
    by_cases hqp : q = p
    · subst hqp
      rw [hat]
      exact (hinv.keys q hq).sublist (List.erase_sublist.map _)
    · rw [hother q hqp]
      exact hinv.keys q hq
  · intro q hq
    refine (List.mem_erase_of_ne ?_).mpr (hinv.allocated q hq)
    rintro rfl
    exact (hinv.owned p hp q ha).2 hq
  · intro q hq b hb
    obtain ⟨hold, hne⟩ := hservices q hq b hb
    obtain ⟨hin, hout⟩ := hinv.owned q hq b hold
    exact ⟨(List.mem_erase_of_ne hne).mpr hin, hout⟩
  · intro q hq q' hq' b hb hb'
    exact hinv.apart q hq q' hq' b (hservices q hq b hb).1 (hservices q' hq' b hb').1
  · exact fun b hb => hinv.range b (List.mem_of_mem_erase hb)
  · have hstep := @ChannelStep.dropped p k ⟨(s.channel p).refCounter,
      (s.channel p).bindRefCounter, s.isShared p, (s.channel p).services.map s.serviceElem⟩ _
      (List.mem_map_of_mem ha) hkey hlast
    rw [entry_of_mem hp]
    refine Eq.mp (congrArg _ (Eq.symm ?_)) hstep
    refine (if_pos hp).trans ?_
    simp only [hat]
    rw [hmap]
    rfl
  · intro q hq
    refine entry_congr Iff.rfl (fun _ => hother q hq) (fun _ => rfl) fun hq' b hb => hmem b ?_
    rintro rfl
    exact hq (hinv.apart q hq' p hp b hb ha)

/-- A channel has fewer services than there are addresses. -/
theorem services_length_lt (hinv : MemoryInv s) (hp : p ∈ s.channelList) :
    (s.channel p).services.length < 4294967296 := by
  have hnodup : (p :: (s.channel p).services).Nodup :=
    List.nodup_cons.mpr ⟨fun hmem => (hinv.owned p hp p hmem).2 hp,
      List.Nodup.of_map _ (hinv.keys p hp)⟩
  have hsub : p :: (s.channel p).services ⊆ List.range 4294967296 := by
    intro a ha
    rw [List.mem_range]
    rcases List.mem_cons.mp ha with rfl | hmem
    · exact (hinv.range a (hinv.allocated a hp)).2
    · exact (hinv.range a (hinv.owned p hp a hmem).1).2
  have hle := (List.subperm_of_subset hnodup hsub).length_le
  rw [List.length_cons, List.length_range] at hle
  exact hle

/-- No allocation for a service fails, and no counter that is counted up is at its maximum. -/
def Registry.orderly (s : Registry) : RegistryCall → Bool
  | .createChannel flags hasResult _ =>
    s.pSharedChannel.all fun p => !hasResult || flags != NMF_CHANNEL_SHARED ||
      decide ((s.channel p).refCounter + 1 < 4294967296)
  | .registerService p handler contextHandler pToAdd =>
    p == 0 || handler == 0 || decide (p ∉ s.channelList) || pToAdd.isSome &&
      (s.channel p).services.all fun a => (s.serviceElem a).key != (handler, contextHandler) ||
        decide ((s.serviceElem a).refCounter + 1 < 4294967296)
  | .addRef p =>
    decide (p ∉ s.channelList) || decide ((s.channel p).bindRefCounter + 1 < 4294967296)
  | _ => true

theorem create_effect (hinv : MemoryInv s) {flags : Nat} {allocations : Allocations}
    (hnone : flags = NMF_CHANNEL_SHARED → s.pSharedChannel = none)
    (h : s.createChannel flags allocations = some (t, answer)) :
    Effect s (.createChannel flags true allocations) t answer := by
  unfold Registry.createChannel at h
  cases hchannel : allocations.channel with
  | none =>
    rw [hchannel] at h
    cases h
    exact effect_refused hinv rfl
  | some p =>
    simp only [hchannel] at h
    obtain ⟨hfresh, hmake⟩ := Option.ite_none_right_eq_some.mp h
    rcases create_parts_spec s.live allocations with ⟨hdone, hparts⟩ | ⟨hdone, hlive⟩
    · rw [hdone, hparts] at hmake
      simp only [if_true] at hmake
      split_ifs at hmake with hshared <;> cases hmake
      · exact effect_created hinv hfresh _ flags allocations hnone (if_pos hshared).symm
      · exact effect_created hinv hfresh _ flags allocations hnone (if_neg hshared).symm
    · rw [hdone] at hmake
      cases hmake
      exact effect_not_created hinv hfresh hlive _ (List.erase_cons_head ..)

theorem open_effect (hinv : MemoryInv s) {flags : Nat} {allocations : Allocations}
    (hok : s.orderly (.createChannel flags true allocations) = true)
    (h : s.openChannel flags allocations = some (t, answer)) :
    Effect s (.createChannel flags true allocations) t answer := by
  unfold Registry.openChannel at h
  by_cases hflags : flags = NMF_CHANNEL_SHARED
  · rw [if_pos hflags] at h
    cases hpointer : s.pSharedChannel with
    | none =>
      rw [hpointer] at h
      exact create_effect hinv (fun _ => hpointer) h
    | some p =>
      rw [hpointer] at h
      cases h
      obtain ⟨hp, hshared⟩ := (hinv.shared p).mp hpointer
      have hroom : (s.channel p).refCounter + 1 < 4294967296 := by
        simpa [Registry.orderly, hpointer, hflags] using hok
      have hcount : toUint32 ((s.channel p).refCounter + 1) = (s.channel p).refCounter + 1 :=
        Nat.mod_eq_of_lt hroom
      rw [hcount]
      refine effect_counters hinv hp rfl rfl ?_
      rw [entry_of_mem hp, hflags]
      exact .opened hshared hroom
  · rw [if_neg hflags] at h
    exact create_effect hinv (fun heq => absurd heq hflags) h

theorem close_effect (hinv : MemoryInv s) (p : Nat) :
    Effect s (.closeChannel p) (s.closeChannel p).1 (s.closeChannel p).2 := by
  unfold Registry.closeChannel
  dsimp only
  by_cases hp : p ∈ s.channelList
  · rw [if_pos hp]
    by_cases hmany : s.pSharedChannel = some p ∧ (s.channel p).refCounter > 1
    · rw [if_pos hmany]
      refine effect_counters hinv hp rfl rfl ?_
      rw [entry_of_mem hp]
      exact .closed ((hinv.shared p).mp hmany.1).2 hmany.2
    · rw [if_neg hmany]
      by_cases hidle : toUint32 (s.channel p).services.length = 0 ∧ (s.channel p).bindRefCounter = 0
      · rw [if_pos hidle]
        have hlength : toUint32 (s.channel p).services.length = (s.channel p).services.length :=
          Nat.mod_eq_of_lt (services_length_lt hinv hp)
        refine effect_destroyed hinv hp ?_ ?_ hidle.2
        · intro hshared
          have hpointer := (hinv.shared p).mpr ⟨hp, hshared⟩
          exact Nat.not_lt.mp fun hlt => hmany ⟨hpointer, hlt⟩
        · exact List.eq_nil_of_length_eq_zero (hlength ▸ hidle.1)
      · rw [if_neg hidle]
        exact effect_refused hinv rfl
  · rw [if_neg hp]
    exact effect_refused hinv rfl

theorem add_service_effect (hinv : MemoryInv s) (hp : p ∈ s.channelList) (hfresh : s.Fresh a)
    (k : Nat × Nat) (pToAdd : Option Nat)
    (hroom : ∀ x ∈ (s.channel p).services, (s.serviceElem x).key = k →
      (s.serviceElem x).refCounter + 1 < 4294967296) :
    Effect s (.registerService p k.1 k.2 pToAdd) (s.addService p a ⟨k.1, k.2, 1⟩) .ok := by
  have hnew : Function.update s.serviceElem a ⟨k.1, k.2, 1⟩ a = ⟨k.1, k.2, 1⟩ :=
    Function.update_self ..
  have hkept : ∀ x ∈ s.allocated, Function.update s.serviceElem a ⟨k.1, k.2, 1⟩ x =
      s.serviceElem x := by
    intro x hx
    refine Function.update_of_ne ?_ ..
    rintro rfl
    exact hfresh.2.2 hx
  unfold Registry.addService
  dsimp only
  rcases @match_add (Function.update s.serviceElem a ⟨k.1, k.2, 1⟩) a
    (s.channel p).services with ⟨hall, heq⟩ | ⟨b, hb, hkey, heq⟩
  · rw [heq]
    refine effect_new_service hinv hp hfresh pToAdd ?_
    intro x hx
    have hne := hall x hx
    rw [hnew, hkept x (hinv.owned p hp x hx).1] at hne
    exact hne
  · rw [heq]
    have hin := (hinv.owned p hp b hb).1
    rw [hnew, hkept b hin] at hkey
    have hkey' : (s.serviceElem b).key = k := hkey
    rw [hkept b hin]
    refine effect_service hinv hp hb ?_ ?_ rfl ?_
    · intro x hx hxb
      rw [Function.update_of_ne hxb]
      exact hkept x hx
    · rw [Function.update_self, up_key]
    · have hentries : (s.channel p).services.map (Function.update (Function.update s.serviceElem a
          ⟨k.1, k.2, 1⟩) b (s.serviceElem b).up) =
          ((s.channel p).services.map s.serviceElem).map
            fun e => if e.key = k then e.up else e := by
        rw [← map_update_key ServiceElem.up (hinv.keys p hp) hb hkey']
        apply List.map_congr_left
        intro x hx
        by_cases hxb : x = b
        · rw [hxb, Function.update_self, Function.update_self]
        · rw [Function.update_of_ne hxb, Function.update_of_ne hxb]
          exact hkept x (hinv.owned p hp x hx).1
      have hfound : ∃ x ∈ (s.channel p).services.map s.serviceElem, x.key = k :=
        ⟨_, List.mem_map_of_mem hb, hkey'⟩
      have hroom' : ∀ x ∈ (s.channel p).services.map s.serviceElem, x.key = k →
          x.refCounter + 1 < 4294967296 := by
        intro x hx hxk
        obtain ⟨y, hy, rfl⟩ := List.mem_map.mp hx
        exact hroom y hy hxk
      have hstep := @ChannelStep.registered p k pToAdd ⟨(s.channel p).refCounter,
        (s.channel p).bindRefCounter, s.isShared p, (s.channel p).services.map s.serviceElem⟩ hroom'
      unfold ChannelEntry.register at hstep
      rw [if_pos hfound] at hstep
      rw [entry_of_mem hp, hentries]
      exact hstep

theorem register_effect (hinv : MemoryInv s) {handler contextHandler : Nat} {pToAdd : Option Nat}
    (hp0 : p ≠ 0) (hhandler : handler ≠ 0)
    (hok : s.orderly (.registerService p handler contextHandler pToAdd) = true)
    (h : s.registerService p handler contextHandler pToAdd = some (t, answer)) :
    Effect s (.registerService p handler contextHandler pToAdd) t answer := by
  unfold Registry.registerService at h
  by_cases hp : p ∈ s.channelList
  · rw [if_pos hp] at h
    have hroom : pToAdd.isSome = true ∧ ∀ x ∈ (s.channel p).services,
        (s.serviceElem x).key = (handler, contextHandler) →
        (s.serviceElem x).refCounter + 1 < 4294967296 := by
      simpa [Registry.orderly, hp0, hhandler, hp, imp_iff_not_or] using hok
    cases pToAdd with
    | none => cases hroom.1
    | some a =>
      obtain ⟨hfresh, heq⟩ := Option.ite_none_right_eq_some.mp h
      cases heq
      exact add_service_effect hinv hp hfresh (handler, contextHandler) (some a) hroom.2
  · rw [if_neg hp] at h
    cases h
    exact effect_refused hinv rfl

theorem unregister_effect (hinv : MemoryInv s) (p handler contextHandler : Nat) :
    Effect s (.unregisterService p handler contextHandler)
      (s.unregisterService p handler contextHandler).1
      (s.unregisterService p handler contextHandler).2 := by
  unfold Registry.unregisterService
  dsimp only
  by_cases hp : p ∈ s.channelList
  · rw [if_pos hp]
    rcases match_remove handler contextHandler (hinv.keys p hp) with
      ⟨-, heq⟩ | ⟨a, ha, hkey, heq⟩
    · rw [heq]
      show Effect s _ { s.setChannel p (s.channel p) with serviceElem := s.serviceElem } _
      rw [setChannel_self]
      exact effect_refused hinv rfl
    · rw [heq]
      have hat : Function.update s.serviceElem a (s.serviceElem a).down a =
          (s.serviceElem a).down := Function.update_self ..
      by_cases hlast : (s.serviceElem a).down.refCounter = 0
      · simp only [if_pos hlast, hat]
        exact effect_dropped hinv hp ha hkey hlast
      · simp only [if_neg hlast, hat]
        show Effect s _ { s.setChannel p (s.channel p) with
          serviceElem := Function.update s.serviceElem a (s.serviceElem a).down } _
        rw [setChannel_self]
        refine effect_service hinv hp ha (fun b _ hb => Function.update_of_ne hb ..) ?_ rfl ?_
        · rw [hat, down_key]
        · rw [entry_of_mem hp, map_update_key ServiceElem.down (hinv.keys p hp) ha hkey]
          exact @ChannelStep.countedDown p (handler, contextHandler) ⟨(s.channel p).refCounter,
            (s.channel p).bindRefCounter, s.isShared p, (s.channel p).services.map s.serviceElem⟩ _
            (List.mem_map_of_mem ha) hkey hlast
  · rw [if_neg hp]
    exact effect_refused hinv rfl

theorem add_ref_effect (hinv : MemoryInv s) (hok : s.orderly (.addRef p) = true) :
    Effect s (.addRef p) (s.addRef p).1 (s.addRef p).2 := by
  unfold Registry.addRef
  dsimp only
  by_cases hp : p ∈ s.channelList
  · rw [if_pos hp]
    have hroom : (s.channel p).bindRefCounter + 1 < 4294967296 := by
      simpa [Registry.orderly, hp] using hok
    have hcount : toUint32 ((s.channel p).bindRefCounter + 1) =
        (s.channel p).bindRefCounter + 1 := Nat.mod_eq_of_lt hroom
    rw [hcount]
    refine effect_counters hinv hp rfl rfl ?_
    rw [entry_of_mem hp]
    exact .bound hroom
  · rw [if_neg hp]
    exact effect_refused hinv rfl

theorem remove_ref_effect (hinv : MemoryInv s) (p : Nat) :
    Effect s (.removeRef p) (s.removeRef p).1 (s.removeRef p).2 := by
  unfold Registry.removeRef
  dsimp only
  by_cases hp : p ∈ s.channelList ∧ (s.channel p).bindRefCounter ≠ 0
  · rw [if_pos hp]
    refine effect_counters hinv hp.1 rfl rfl ?_
    rw [entry_of_mem hp.1]
    exact .unbound hp.2
  · rw [if_neg hp]
    exact effect_refused hinv rfl

theorem perform_effect (hinv : MemoryInv s) (hok : s.orderly call = true)
    (h : s.perform call = some (t, answer)) : Effect s call t answer := by
  have hfree := hinv.free
  cases call with
  | createChannel flags hasResult allocations =>
    simp only [Registry.perform, hfree] at h
    split_ifs at h with hbad
    · cases h
      exact effect_refused hinv rfl
    · have hresult : hasResult = true := by
        cases hasResult with
        | false => exact absurd (.inl rfl) hbad
        | true => rfl
      subst hresult
      exact open_effect hinv hok h
  | closeChannel p =>
    simp only [Registry.perform, hfree] at h
    split_ifs at h with hnull
    · cases h
      exact effect_refused hinv rfl
    · have heffect := close_effect hinv p
      rw [Option.some.inj h] at heffect
      exact heffect
  | registerService p handler contextHandler pToAdd =>
    simp only [Registry.perform, hfree] at h
    split_ifs at h with hnull
    · cases h
      exact effect_refused hinv rfl
    · rw [not_or] at hnull
      exact register_effect hinv hnull.1 hnull.2 hok h
  | unregisterService p handler contextHandler =>
    simp only [Registry.perform, hfree] at h
    split_ifs at h with hnull
    · cases h
      exact effect_refused hinv rfl
    · have heffect := unregister_effect hinv p handler contextHandler
      rw [Option.some.inj h] at heffect
      exact heffect
  | addRef p =>
    simp only [Registry.perform, hfree] at h
    have heffect := add_ref_effect hinv hok
    rw [Option.some.inj h] at heffect
    exact heffect
  | removeRef p =>
    simp only [Registry.perform, hfree] at h
    have heffect := remove_ref_effect hinv p
    rw [Option.some.inj h] at heffect
    exact heffect

end Refinement

structure RegistryInv (s : Registry) : Prop where
  memory : MemoryInv s
  channels : ∀ p, ChannelInv p s.log (s.entry p)

theorem registry_inv_init (channel : Nat → ChannelElem) (serviceElem : Nat → ServiceElem) :
    RegistryInv (.init channel serviceElem) where
  memory := memory_inv_init channel serviceElem
  channels := by
    intro p
    rw [entry_of_not_mem (List.not_mem_nil (a := p))]
    exact ⟨rfl, rfl, fun _ => rfl⟩

section Runs
variable {s t : Registry} {call : RegistryCall} {p : Nat}

/-- Each call is one of the abstract calls on the channel it is about. -/
theorem step_effect (hinv : MemoryInv s) (hok : s.orderly call = true)
    (h : s.step call = some t) :
    ∃ t' answer, t = { t' with log := s.log ++ [(call, answer)] } ∧ Effect s call t' answer := by
  obtain ⟨⟨t', answer⟩, hperform, rfl⟩ := Option.map_eq_some_iff.mp h
  exact ⟨t', answer, rfl, perform_effect hinv hok hperform⟩

theorem registry_inv_step (hinv : RegistryInv s) (hok : s.orderly call = true)
    (h : s.step call = some t) : RegistryInv t := by
  obtain ⟨t', answer, rfl, hmemory, ⟨p, hstep, hothers⟩, -⟩ := step_effect hinv.memory hok h
  refine ⟨hmemory.keep rfl rfl (fun _ _ => rfl) (fun _ => .inl rfl) rfl rfl rfl, ?_⟩
  intro q
  show ChannelInv q (s.log ++ [(call, answer)]) (t'.entry q)
  by_cases hq : q = p
  · subst hq
    exact channel_inv_step hstep (hinv.channels q)
  · rw [hothers q hq]
    exact channel_inv_silent (hinv.channels q) (silent_of_ne hstep hq)

theorem registry_inv_run {channel : Nat → ChannelElem} {serviceElem : Nat → ServiceElem}
    {calls : List RegistryCall} (hrun : run Registry.step (.init channel serviceElem) calls = some s)
    (hok : Meets Registry.step (fun s call => s.orderly call = true) (.init channel serviceElem)
      calls) : RegistryInv s :=
  run_induction_of_meets (fun _ _ _ hs hc hstep => registry_inv_step hs hc hstep)
    (registry_inv_init channel serviceElem) hok hrun

/-- The lock is free, a channel is on the list while it has users, and the counters are what the
calls have left. -/
structure Consistent (s : Registry) : Prop where
  unlocked : s.channelListLock = false
  channels : s.channelList.Nodup
  listed : ∀ p, p ∈ s.channelList ↔ 0 < users p s.log
  users : ∀ p ∈ s.channelList, ((s.channel p).refCounter : Int) = users p s.log
  bindings : ∀ p ∈ s.channelList, ((s.channel p).bindRefCounter : Int) = bindings p s.log
  shared : ∀ p ∈ s.channelList, ∀ q ∈ s.channelList, s.isShared p = true →
    s.isShared q = true → p = q
  keys : ∀ p ∈ s.channelList, ((s.channel p).services.map fun a => (s.serviceElem a).key).Nodup
  services : ∀ p ∈ s.channelList, ∀ a ∈ (s.channel p).services, 0 < (s.serviceElem a).refCounter ∧
    ((s.serviceElem a).refCounter : Int) = registrations p (s.serviceElem a).key s.log
  registered : ∀ p k, registrations p k s.log ≠ 0 →
    p ∈ s.channelList ∧ ∃ a ∈ (s.channel p).services, (s.serviceElem a).key = k

/-- The last user of a channel that nothing else holds. -/
def Registry.LastClose (s : Registry) (p : Nat) (call : RegistryCall) : Prop :=
  call = .closeChannel p ∧ users p s.log = 1 ∧ (s.channel p).services = [] ∧
    (s.channel p).bindRefCounter = 0

theorem entry_inv_of_mem (hinv : RegistryInv s) (hp : p ∈ s.channelList) :
    EntryInv p s.log ⟨(s.channel p).refCounter, (s.channel p).bindRefCounter, s.isShared p,
      (s.channel p).services.map s.serviceElem⟩ := by
  have hentry := hinv.channels p
  rw [entry_of_mem hp] at hentry
  exact hentry

theorem none_inv_of_not_mem (hinv : RegistryInv s) (hp : p ∉ s.channelList) :
    users p s.log = 0 ∧ bindings p s.log = 0 ∧ ∀ k, registrations p k s.log = 0 := by
  have hentry := hinv.channels p
  rw [entry_of_not_mem hp] at hentry
  exact hentry

theorem consistent_of_inv (hinv : RegistryInv s) : Consistent s := by
  refine ⟨hinv.memory.free, hinv.memory.channels, ?_, ?_, ?_, ?_, hinv.memory.keys, ?_, ?_⟩
  · intro p
    constructor
    · intro hp
      have hentry := entry_inv_of_mem hinv hp
      rw [hentry.counted]
      exact Int.natCast_pos.mpr hentry.used.1
    · intro hpos
      by_contra hp
      rw [(none_inv_of_not_mem hinv hp).1] at hpos
      exact absurd hpos (by decide)
  · exact fun p hp => (entry_inv_of_mem hinv hp).counted.symm
  · exact fun p hp => (entry_inv_of_mem hinv hp).bound.symm
  · intro p hp q hq hshared hshared'
    have hpointer := (hinv.memory.shared p).mpr ⟨hp, hshared⟩
    have hpointer' := (hinv.memory.shared q).mpr ⟨hq, hshared'⟩
    exact Option.some.inj (hpointer.symm.trans hpointer')
  · intro p hp a ha
    obtain ⟨hcount, hpos, -⟩ := (entry_inv_of_mem hinv hp).registered _ (List.mem_map_of_mem ha)
    exact ⟨hpos, hcount.symm⟩
  · intro p k hne
    have hp : p ∈ s.channelList := by
      by_contra hp
      exact hne ((none_inv_of_not_mem hinv hp).2.2 k)
    refine ⟨hp, ?_⟩
    by_contra hall
    apply hne
    apply (entry_inv_of_mem hinv hp).unregistered
    intro x hx hkey
    obtain ⟨a, ha, rfl⟩ := List.mem_map.mp hx
    exact hall ⟨a, ha, hkey⟩

theorem destroyed_cases {answer : Answer} {q : Nat} {o : Option ChannelEntry} {e : ChannelEntry}
    (hstep : ChannelStep call answer q o none) (ho : o = some e) :
    call = .closeChannel q ∧ (e.isShared = true → e.refCounter ≤ 1) ∧ e.services = [] ∧
      e.bindRefCounter = 0 := by
  cases hstep with
  | refused => cases ho
  | destroyed hlast hservices hbindings =>
    cases ho
    exact ⟨rfl, hlast, hservices, hbindings⟩

theorem created_cases {answer : Answer} {q : Nat} {o : Option ChannelEntry} {e : ChannelEntry}
    (hstep : ChannelStep call answer q o (some e)) (ho : o = none) :
    answer = .created q ∧ ∃ flags allocations, call = .createChannel flags true allocations := by
  cases hstep with
  | refused => cases ho
  | created => exact ⟨rfl, _, _, rfl⟩
  | _ => cases ho

theorem not_listed_iff : p ∉ s.channelList ↔ s.entry p = none := by
  constructor
  · exact entry_of_not_mem
  · intro hnone hp
    rw [entry_of_mem hp] at hnone
    cases hnone

/-- A channel leaves the list with its last user and not otherwise. -/
theorem leaves_iff (hinv : RegistryInv s) (hok : s.orderly call = true) (h : s.step call = some t)
    (hp : p ∈ s.channelList) : p ∉ t.channelList ↔ s.LastClose p call := by
  have hentry := entry_inv_of_mem hinv hp
  constructor
  · intro hgone
    obtain ⟨t', answer, rfl, -, ⟨q, hstep, hothers⟩, -⟩ := step_effect hinv.memory hok h
    have hnone : t'.entry p = none := not_listed_iff.mp hgone
    have hpq : p = q := by
      by_contra hne
      rw [hothers p hne, entry_of_mem hp] at hnone
      cases hnone
    subst hpq
    rw [hnone] at hstep
    obtain ⟨hcall, hlast, hservices, hbindings⟩ := destroyed_cases hstep (entry_of_mem hp)
    refine ⟨hcall, ?_, List.map_eq_nil_iff.mp hservices, hbindings⟩
    have hone : (s.channel p).refCounter = 1 := by
      cases hshared : s.isShared p with
      | false => exact hentry.alone hshared
      | true => exact Nat.le_antisymm (hlast hshared) hentry.used.1
    rw [hentry.counted, hone]
    rfl
  · rintro ⟨rfl, husers, hservices, hbindings⟩
    have hone : (s.channel p).refCounter = 1 := by
      have hcount := hentry.counted
      rw [husers] at hcount
      exact Int.ofNat_inj.mp hcount.symm
    have hne : p ≠ 0 := Nat.ne_of_gt (hinv.memory.range p (hinv.memory.allocated p hp)).1
    have hmany : ¬ (s.pSharedChannel = some p ∧ (s.channel p).refCounter > 1) := by
      rw [hone]
      exact fun hboth => absurd hboth.2 (Nat.lt_irrefl 1)
    have hidle : toUint32 (s.channel p).services.length = 0 ∧ (s.channel p).bindRefCounter = 0 := by
      rw [hservices]
      exact ⟨rfl, hbindings⟩
    simp only [Registry.step, Registry.perform, if_neg hne, hinv.memory.free, Registry.closeChannel,
      if_pos hp, if_neg hmany, if_pos hidle] at h
    cases h
    exact fun hlisted => absurd rfl (hinv.memory.channels.mem_erase_iff.mp hlisted).1

/-- A channel that comes onto the list is one that the call has made. -/
theorem enters_of_created (hinv : RegistryInv s) (hok : s.orderly call = true)
    (h : s.step call = some t) (hp : p ∉ s.channelList) (hnew : p ∈ t.channelList) :
    t.log = s.log ++ [(call, .created p)] ∧
      ∃ flags allocations, call = .createChannel flags true allocations := by
  obtain ⟨t', answer, rfl, -, ⟨q, hstep, hothers⟩, -⟩ := step_effect hinv.memory hok h
  have hnone := entry_of_not_mem hp
  have hsome : t'.entry p = some _ := entry_of_mem hnew
  have hpq : p = q := by
    by_contra hne
    rw [hothers p hne, hnone] at hsome
    cases hsome
  subst hpq
  rw [hsome] at hstep
  obtain ⟨rfl, hcall⟩ := created_cases hstep hnone
  exact ⟨rfl, hcall⟩

end Runs

/-- In every run in which no allocation for a service fails and no counter overflows the registry is
consistent, and every further call leaves it so: a channel comes onto the list when it is created
and leaves it with its last user, and a call that fails changes nothing. -/
theorem channels_live_until_last_close (channel : Nat → ChannelElem)
    (serviceElem : Nat → ServiceElem) (calls : List RegistryCall) (s : Registry)
    (hrun : run Registry.step (.init channel serviceElem) calls = some s)
    (hok : Meets Registry.step (fun s call => s.orderly call = true) (.init channel serviceElem)
      calls) :
    Consistent s ∧ ∀ call t, s.orderly call = true → s.step call = some t → Consistent t ∧
      (∀ p ∈ s.channelList, p ∉ t.channelList ↔ s.LastClose p call) ∧
      (∀ p ∉ s.channelList, p ∈ t.channelList → t.log = s.log ++ [(call, .created p)] ∧
        ∃ flags allocations, call = .createChannel flags true allocations) ∧
      ∃ answer, t.log = s.log ++ [(call, answer)] ∧ (answer.isError = true → Unchanged s t) := by
  have hinv := registry_inv_run hrun hok
  refine ⟨consistent_of_inv hinv, ?_⟩
  intro call t horderly hstep
  refine ⟨consistent_of_inv (registry_inv_step hinv horderly hstep),
    fun p hp => leaves_iff hinv horderly hstep hp,
    fun p hp hnew => enters_of_created hinv horderly hstep hp hnew, ?_⟩
  obtain ⟨t', answer, rfl, -, -, herror⟩ := step_effect hinv.memory horderly hstep
  refine ⟨answer, rfl, fun hbad => ?_⟩
  obtain ⟨⟨channel', log', rfl⟩, hlisted⟩ := herror hbad
  exact ⟨⟨channel', _, rfl⟩, hlisted⟩

def sampleAllocations (p : Nat) : Allocations := ⟨some p, true, true, true, true, true⟩

/-- The shared channel is opened twice, a service is registered twice and taken back once, a channel
cannot be made for want of a mutex, and a private one is opened and closed. -/
def sampleCalls : List RegistryCall :=
  [.createChannel 0 true (sampleAllocations 8), .createChannel 0 true (sampleAllocations 9),
    .registerService 8 5 6 (some 16), .registerService 8 5 6 (some 17), .addRef 8,
    .unregisterService 8 5 6, .createChannel 1 true ⟨some 24, true, true, false, true, true⟩,
    .createChannel 1 true (sampleAllocations 24), .closeChannel 24, .closeChannel 8,
    .closeChannel 8]

theorem channels_live_sample :
    ∃ s, run Registry.step (.init (fun _ => .zeroed) fun _ => ⟨0, 0, 0⟩) sampleCalls = some s ∧
      s.channelList = [8] ∧ Consistent s := by
  have hrun : ∃ s, run Registry.step (.init (fun _ => .zeroed) fun _ => ⟨0, 0, 0⟩) sampleCalls =
      some s ∧ s.channelList = [8] := ⟨_, rfl, rfl⟩
  obtain ⟨s, hs, hlist⟩ := hrun
  exact ⟨s, hs, hlist, (channels_live_until_last_close (fun _ => .zeroed) (fun _ => ⟨0, 0, 0⟩)
    sampleCalls s hs (by decide)).1⟩

/-- Without memory for a service the lock is left taken, and the next call waits for ever. -/
theorem lock_kept_without_memory :
    ∃ s, run Registry.step (.init (fun _ => .zeroed) fun _ => ⟨0, 0, 0⟩)
        [.createChannel 1 true (sampleAllocations 8), .registerService 8 5 6 none] = some s ∧
      s.log.getLast? = some (.registerService 8 5 6 none, .noMoreMemory) ∧
      s.channelListLock = true ∧ s.step (.closeChannel 8) = none :=
  ⟨_, rfl, rfl, rfl, rfl⟩

end Codinalte.HostEE
