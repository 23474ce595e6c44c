import Codinalte.CmProxy.Channels
import Codinalte.Lib.Machine
import Codinalte.Lib.Balance
import Mathlib.Algebra.Order.BigOperators.Group.List
import Mathlib.Algebra.Order.Group.Nat
import Mathlib.Algebra.Ring.Nat

/-! A channel and its descriptor live from the first create to the last close, and the control
device is open as long as there is a channel, where no user leaves a channel with a service behind.
The one count of an entry is its users and its registrations together. -/

namespace Codinalte.CmProxy
open Codinalte.Machine Codinalte.Balance

section Log
variable {p : Nat} {log : List Record} {r : Record}

/-- The channel of a successful create. -/
def created (r : Record) : Option Nat := if r.error = .ok then r.channel else none

def closed (r : Record) : Option Nat :=
  match r.call with
  | .closeChannel p => if r.error = .ok then some p else none
  | _ => none

def registered (r : Record) : Option Nat :=
  match r.call with
  | .registerService p _ _ _ => if r.error = .ok then some p else none
  | _ => none

def unregistered (r : Record) : Option Nat :=
  match r.call with
  | .unregisterService p _ _ => if r.error = .ok then some p else none
  | _ => none

/-- How many successful creates of the channel are not yet closed. -/
def users (p : Nat) (log : List Record) : Int := balance created closed p log

def usages (log : List Record) : Int := total created closed log

def registrations (p : Nat) (log : List Record) : Int := balance registered unregistered p log

theorem users_snoc : users p (log ++ [r]) = users p log +
    (if created r = some p then 1 else 0) - if closed r = some p then 1 else 0 :=
  balance_snoc

theorem usages_snoc : usages (log ++ [r]) = usages log +
    (if (created r).isSome then 1 else 0) - if (closed r).isSome then 1 else 0 :=
  total_snoc

theorem registrations_snoc : registrations p (log ++ [r]) = registrations p log +
    (if registered r = some p then 1 else 0) - if unregistered r = some p then 1 else 0 :=
  balance_snoc

/-- A record that moves none of the balances. -/
def Record.Silent (r : Record) : Prop :=
  created r = none ∧ closed r = none ∧ registered r = none ∧ unregistered r = none

theorem silent_of_error (h : r.error ≠ .ok) : r.Silent := by
  refine ⟨if_neg h, ?_, ?_, ?_⟩
  · cases r with | mk call => cases call <;> simp_all [closed]
  · cases r with | mk call => cases call <;> simp_all [registered]
  · cases r with | mk call => cases call <;> simp_all [unregistered]

theorem Record.Silent.users (h : r.Silent) : users p (log ++ [r]) = CmProxy.users p log := by
  rw [users_snoc, h.1, h.2.1]
  simp

theorem Record.Silent.usages (h : r.Silent) : usages (log ++ [r]) = CmProxy.usages log := by
  rw [usages_snoc, h.1, h.2.1]
  simp

theorem Record.Silent.registrations (h : r.Silent) :
    registrations p (log ++ [r]) = CmProxy.registrations p log := by
  rw [registrations_snoc, h.2.2.1, h.2.2.2]
  simp

end Log

/-- The registrations that a list of services holds. -/
def registeredOn (services : List ServiceEntry) : Nat := (services.map ServiceEntry.count).sum

section Services
variable {l : List ServiceEntry} {i : Nat} {x : ServiceEntry} {e : ChannelEntry}

theorem registeredOn_modify (f : ServiceEntry → ServiceEntry) (h : l[i]? = some x) :
    registeredOn (l.modify i f) + x.count = registeredOn l + (f x).count := by
  induction l generalizing i with
  | nil => simp at h
  | cons y l ih =>
    cases i with
    | zero =>
      simp only [List.getElem?_cons_zero, Option.some.injEq] at h
      subst h
      simp only [registeredOn, List.modify_zero_cons, List.map_cons, List.sum_cons]
      omega
    | succ i =>
      have hrest := ih (i := i) (by simpa using h)
      simp only [registeredOn, List.modify_succ_cons, List.map_cons, List.sum_cons] at hrest ⊢
      omega

theorem registeredOn_eraseIdx (h : l[i]? = some x) :
    registeredOn (l.eraseIdx i) + x.count = registeredOn l := by
  induction l generalizing i with
  | nil => simp at h
  | cons y l ih =>
    cases i with
    | zero =>
      simp only [List.getElem?_cons_zero, Option.some.injEq] at h
      subst h
      simp only [registeredOn, List.eraseIdx_cons_zero, List.map_cons, List.sum_cons]
      omega
    | succ i =>
      have hrest := ih (i := i) (by simpa using h)
      simp only [registeredOn, List.eraseIdx_cons_succ, List.map_cons, List.sum_cons] at hrest ⊢
      omega

theorem count_le_registeredOn (h : x ∈ l) : x.count ≤ registeredOn l :=
  List.le_sum_of_mem (List.mem_map_of_mem h)

theorem eq_nil_of_registeredOn (hpos : ∀ x ∈ l, 0 < x.count) (h : registeredOn l = 0) : l = [] := by
  cases l with
  | nil => rfl
  | cons y l =>
    have hy := hpos y List.mem_cons_self
    have hle := count_le_registeredOn (l := y :: l) List.mem_cons_self
    omega

/-- Every service on the list is registered, and none more often than a count can tell. -/
structure Counted (l : List ServiceEntry) : Prop where
  pos : ∀ x ∈ l, 0 < x.count
  lt : registeredOn l < 4294967296

theorem toUint32_of_lt {value : Nat} (h : value < 4294967296) : toUint32 value = value :=
  Nat.mod_eq_of_lt h

theorem decrement_of_pos {count : Nat} (hpos : 0 < count) (h : count < 4294967296) :
    decrement count = count - 1 := by
  unfold decrement toUint32
  omega

theorem mem_modify {f : ServiceEntry → ServiceEntry} {y : ServiceEntry} (h : y ∈ l.modify i f) :
    y ∈ l ∨ ∃ x ∈ l, y = f x := by
  obtain ⟨j, hj, hy⟩ := List.mem_iff_getElem.mp h
  rw [List.getElem_modify] at hy
  rw [List.length_modify] at hj
  split at hy
  · exact .inr ⟨l[j], List.getElem_mem hj, hy.symm⟩
  · exact .inl (hy ▸ List.getElem_mem hj)

theorem getServiceEntry_some {service ctx : Nat} (h : e.getServiceEntry service ctx = some i) :
    ∃ x, e.serviceList[i]? = some x := by
  obtain ⟨hlt, -⟩ := List.findIdx?_eq_some_iff_getElem.mp h
  exact ⟨e.serviceList[i], List.getElem?_eq_getElem hlt⟩

theorem Counted.up (h : Counted l) (hx : l[i]? = some x) (hlt : registeredOn l + 1 < 4294967296) :
    Counted (l.modify i ServiceEntry.up) ∧
      registeredOn (l.modify i ServiceEntry.up) =
        registeredOn l + 1 := by
  have hroom : ∀ y ∈ l, y.up.count = y.count + 1 := by
    intro y hy
    have hle := count_le_registeredOn hy
    exact toUint32_of_lt (by omega)
  have hsum := registeredOn_modify ServiceEntry.up hx
  rw [hroom x (List.mem_of_getElem? hx)] at hsum
  refine ⟨⟨?_, by omega⟩, by omega⟩
  intro y hy
  rcases mem_modify hy with hy | ⟨z, hz, rfl⟩
  · exact h.pos y hy
  · rw [hroom z hz]
    exact Nat.succ_pos _

/-- What the registration of a service does to an entry. -/
theorem registerService_effect (service ctx : Nat) (memory : Bool) (hcounted : Counted e.serviceList)
    (hcount : e.count + 1 < 4294967296) (hle : registeredOn e.serviceList ≤ e.count) :
    (e.registerService service ctx memory = (e, .noMoreMemory)) ∨
    ∃ l, e.registerService service ctx memory =
        ({ e with count := e.count + 1, serviceList := l }, .ok) ∧ Counted l ∧
      registeredOn l = registeredOn e.serviceList + 1 := by
  unfold ChannelEntry.registerService
  cases hget : e.getServiceEntry service ctx with
  | some i =>
    obtain ⟨x, hx⟩ := getServiceEntry_some hget
    obtain ⟨hup, hsum⟩ := hcounted.up hx (by omega)
    refine .inr ⟨_, ?_, hup, hsum⟩
    simp only [ChannelEntry.countService, toUint32_of_lt hcount]
  | none =>
    cases memory with
    | false => exact .inl rfl
    | true =>
      refine .inr ⟨⟨1, service, ctx⟩ :: e.serviceList, ?_, ⟨?_, ?_⟩, ?_⟩
      · simp only [if_true, ChannelEntry.countService, toUint32_of_lt hcount,
          List.modify_zero_cons]
        rfl
      · intro y hy
        rcases List.mem_cons.mp hy with rfl | hy
        · exact Nat.one_pos
        · exact hcounted.pos y hy
      · simp only [registeredOn, List.map_cons, List.sum_cons] at hle ⊢
        omega
      · simp only [registeredOn, List.map_cons, List.sum_cons]
        omega

theorem Counted.down (h : Counted l) (hx : l[i]? = some x) :
    ∃ l', (if (l.modify i ServiceEntry.down)[i]?.map
            ServiceEntry.count = some 0 then
          (l.modify i ServiceEntry.down).eraseIdx i
        else l.modify i ServiceEntry.down) = l' ∧
      Counted l' ∧ registeredOn l' + 1 = registeredOn l := by
  have hdown : ∀ y ∈ l, y.down.count = y.count - 1 := by
    intro y hy
    have hle := count_le_registeredOn hy
    have hlt := h.lt
    exact decrement_of_pos (h.pos y hy) (by omega)
  have hmem := List.mem_of_getElem? hx
  have hpos := h.pos x hmem
  have hle := count_le_registeredOn hmem
  have hlt := h.lt
  have hsum := registeredOn_modify ServiceEntry.down hx
  have hnew : (l.modify i ServiceEntry.down)[i]? = some x.down := by
    rw [List.getElem?_modify_eq, hx]
    rfl
  have hx' := hdown x hmem
  by_cases hzero : x.down.count = 0
  · have herase := registeredOn_eraseIdx hnew
    refine ⟨_, rfl, ?_⟩
    rw [hnew, if_pos (by simp [hzero])]
    refine ⟨⟨?_, by omega⟩, by omega⟩
    -- every other entry is as it was
    intro y hy
    obtain ⟨j, hj, hy⟩ := List.mem_eraseIdx_iff_getElem?.mp hy
    rw [List.getElem?_modify_ne _ _ (Ne.symm hj)] at hy
    exact h.pos y (List.mem_of_getElem? hy)
  · refine ⟨_, rfl, ?_⟩
    rw [hnew, if_neg (by simpa using hzero)]
    refine ⟨⟨?_, by omega⟩, by omega⟩
    intro y hy
    obtain ⟨j, hy⟩ := List.mem_iff_getElem?.mp hy
    by_cases hji : i = j
    · subst hji
      rw [← Option.some.inj (hnew.symm.trans hy)]
      exact Nat.pos_of_ne_zero hzero
    · rw [List.getElem?_modify_ne _ _ hji] at hy
      exact h.pos y (List.mem_of_getElem? hy)

/-- What the removal of a registration does to an entry. -/
theorem unregisterService_effect (service ctx : Nat) (hcounted : Counted e.serviceList)
    (hcount : e.count < 4294967296) (hle : registeredOn e.serviceList ≤ e.count) :
    (e.unregisterService service ctx = (e, .invalidParameter)) ∨
    ∃ l, e.unregisterService service ctx =
        ({ e with count := e.count - 1, serviceList := l }, .ok) ∧ Counted l ∧
      registeredOn l + 1 = registeredOn e.serviceList := by
  unfold ChannelEntry.unregisterService
  cases hget : e.getServiceEntry service ctx with
  | none => exact .inl rfl
  | some i =>
    obtain ⟨x, hx⟩ := getServiceEntry_some hget
    obtain ⟨l, heq, hl, hsum⟩ := hcounted.down hx
    refine .inr ⟨l, ?_, hl, hsum⟩
    simp only [heq, decrement_of_pos (show 0 < e.count by omega) hcount]

end Services

/-- The count of an entry is its users and its registrations. -/
structure EntryInv (p : Nat) (log : List Record) (e : ChannelEntry) : Prop where
  address : p ≠ 0
  count : (e.count : Int) = users p log + registrations p log
  room : e.count < 4294967296
  used : 0 < users p log
  counted : Counted e.serviceList
  registered : registrations p log = registeredOn e.serviceList
  descriptor : e.channel ≠ 0

structure Inv (s : Proxy) : Prop where
  entry : ∀ p e, s.heap p = some e → EntryInv p s.log e
  free : ∀ p, s.heap p = none → users p s.log = 0 ∧ registrations p s.log = 0
  shared : ∀ p, s.sharedChannel = some p → s.heap p ≠ none
  usage : usages s.log = s.usageCount
  room : s.usageCount < 4294967296
  channels : ∀ fd, s.os.descriptors fd = some .channel ↔
    ∃ p e, s.heap p = some e ∧ e.channel = fd
  own : ∀ p q e f, s.heap p = some e → s.heap q = some f → e.channel = f.channel → p = q
  control : ∀ fd, s.os.descriptors fd = some .control ↔
    0 < s.usageCount ∧ s.controlFd = some fd
  held : 0 < s.usageCount → s.controlFd ≠ none
  closes : ∀ c ∈ s.os.closes, c.2 ≠ none

theorem inv_init : Inv .init where
  entry := fun _ _ h => nomatch h
  free := fun _ _ => ⟨rfl, rfl⟩
  shared := fun _ h => nomatch h
  usage := rfl
  room := by decide
  channels := fun _ => ⟨(fun h => nomatch h), fun h => nomatch h⟩
  own := nofun
  control := fun _ => ⟨(fun h => nomatch h), fun h => absurd h.1 (Nat.lt_irrefl 0)⟩
  held := fun h => nomatch h
  closes := fun _ h => nomatch h

theorem Inv.users_le {s : Proxy} (hinv : Inv s) (p : Nat) : users p s.log ≤ s.usageCount := by
  rw [← hinv.usage]
  refine balance_le_total (fun q => ?_) p
  cases hq : s.heap q with
  | none => exact Int.le_of_eq (hinv.free q hq).1.symm
  | some f => exact Int.le_of_lt (hinv.entry q f hq).used

/-- The steps for which the counts have room and a user that leaves, or is asked whether it is the
last, has no service behind. -/
def Orderly (s : Proxy) : Call → Prop
  | .createChannel flags _ o => s.usageCount + 1 < 4294967296 ∧ o.channelFd ≠ some 0 ∧
      (flags = NMF_CHANNEL_SHARED → ∀ p ∈ s.sharedChannel,
        users p s.log + registrations p s.log + 1 < 4294967296)
  | .closeChannel p => users p s.log = 1 → registrations p s.log = 0
  | .registerService p _ _ _ => users p s.log + registrations p s.log + 1 < 4294967296
  | .unregisterService _ _ _ => True
  | .flushChannel p _ _ => users p s.log = 1 → registrations p s.log = 0

instance (s : Proxy) (call : Call) : Decidable (Orderly s call) := by
  cases call <;> unfold Orderly <;> infer_instance

section Effect
variable {s t u : Proxy} {o : Opening} {p fd : Nat} {e : ChannelEntry} {r : Record}

/-- Only the control device was opened and closed again. -/
structure Unmoved (s t : Proxy) : Prop where
  heap : t.heap = s.heap
  sharedChannel : t.sharedChannel = s.sharedChannel
  usageCount : t.usageCount = s.usageCount
  descriptors : t.os.descriptors = s.os.descriptors
  controlFd : 0 < s.usageCount → t.controlFd = s.controlFd
  closes : ∃ cs, t.os.closes = s.os.closes ++ cs ∧ ∀ c ∈ cs, c.2 = some .control
  log : t.log = s.log

theorem Unmoved.refl (s : Proxy) : Unmoved s s where
  heap := rfl
  sharedChannel := rfl
  usageCount := rfl
  descriptors := rfl
  controlFd := fun _ => rfl
  closes := ⟨[], (List.append_nil _).symm, fun _ h => nomatch h⟩
  log := rfl

/-- The control device is open: it was, or has just been opened. -/
inductive ControlOpened (s : Proxy) : Proxy → Prop
  | before (hused : 0 < s.usageCount) : ControlOpened s s
  | now (hfree : s.usageCount = 0) (fd : Nat) (hfd : s.os.descriptors fd = none) :
    ControlOpened s { s with controlFd := some fd, os := s.os.opened .control fd }

theorem opened_close (os : Os) (device : Device) {fd : Nat} (h : os.descriptors fd = none) :
    (os.opened device fd).close fd = ⟨os.descriptors, os.closes ++ [(fd, some device)]⟩ := by
  simp only [Os.opened, Os.close, Function.update_idem, Function.update_self]
  rw [← h, Function.update_eq_self]

theorem unmoved_of_opened_close (hfree : s.usageCount = 0) (h : s.os.descriptors fd = none) :
    Unmoved s { s with controlFd := some fd, os := (s.os.opened .control fd).close fd } where
  heap := rfl
  sharedChannel := rfl
  usageCount := rfl
  descriptors := by rw [opened_close s.os .control h]
  controlFd := fun hpos => absurd hfree (Nat.ne_of_gt hpos)
  closes := by
    rw [opened_close s.os .control h]
    refine ⟨_, rfl, ?_⟩
    intro c hc
    rw [List.mem_singleton.mp hc]
  log := rfl

theorem cmInit_effect (hfits : s.Fits o) (hfree : s.usageCount = 0) :
    (∃ t error, s.cmInit o = (t, error) ∧ error ≠ .ok ∧ Unmoved s t) ∨
    ∃ fd, o.controlFd = some fd ∧ s.cmInit o =
      ({ s with controlFd := some fd, os := s.os.opened .control fd }, .ok) := by
  unfold Proxy.cmInit
  cases hfd : o.controlFd with
  | none =>
    refine .inl ⟨_, _, rfl, (fun h => nomatch h), ?_⟩
    exact { Unmoved.refl s with controlFd := fun hpos => absurd hfree (Nat.ne_of_gt hpos) }
  | some fd =>
    have hnone := (hfits.1 fd hfd).1
    have hback := unmoved_of_opened_close hfree hnone
    cases o.driverVersion with
    | none => exact .inl ⟨_, _, rfl, (fun h => nomatch h), hback⟩
    | some version =>
      dsimp only
      split
      · exact .inl ⟨_, _, rfl, (fun h => nomatch h), hback⟩
      · split
        · exact .inr ⟨fd, rfl, rfl⟩
        · exact .inl ⟨_, _, rfl, (fun h => nomatch h), hback⟩

/-- The first part of a `CM_CreateChannel`. -/
theorem control_effect (hfits : s.Fits o) :
    (∃ t error, (if s.usageCount = 0 then s.cmInit o else (s, .ok)) = (t, error) ∧
      error ≠ .ok ∧ Unmoved s t) ∨
    ∃ t, (if s.usageCount = 0 then s.cmInit o else (s, .ok)) = (t, .ok) ∧ ControlOpened s t ∧
      ∀ fd ∈ o.channelFd, t.os.descriptors fd = none := by
  by_cases hfree : s.usageCount = 0
  · rw [if_pos hfree]
    rcases cmInit_effect hfits hfree with herror | ⟨fd, hfd, heq⟩
    · exact .inl herror
    · obtain ⟨hnone, hne⟩ := hfits.1 fd hfd
      refine .inr ⟨_, heq, .now hfree fd hnone, ?_⟩
      intro fd' hfd'
      have hne' : fd' ≠ fd := fun heq => hne (heq ▸ hfd')
      exact (Function.update_of_ne hne' _ _).trans (hfits.2.1 fd' hfd')
  · rw [if_neg hfree]
    exact .inr ⟨s, rfl, .before (Nat.pos_of_ne_zero hfree), hfits.2.1⟩

theorem ControlOpened.heap (h : ControlOpened s t) : t.heap = s.heap := by
  cases h <;> rfl

theorem ControlOpened.sharedChannel (h : ControlOpened s t) :
    t.sharedChannel = s.sharedChannel := by
  cases h <;> rfl

theorem ControlOpened.usageCount (h : ControlOpened s t) : t.usageCount = s.usageCount := by
  cases h <;> rfl

theorem ControlOpened.log (h : ControlOpened s t) : t.log = s.log := by
  cases h <;> rfl

/-- A create that fails closes the control device again if it opened it. -/
theorem ControlOpened.unmoved (h : ControlOpened s t) {error : NmfError} (herror : error ≠ .ok) :
    Unmoved s (t.countUsage error) := by
  unfold Proxy.countUsage
  rw [if_neg herror]
  cases h with
  | before hused =>
    rw [if_neg (Nat.ne_of_gt hused)]
    exact Unmoved.refl s
  | now hfree fd hfd =>
    rw [if_pos hfree]
    exact unmoved_of_opened_close hfree hfd

theorem openChannel_error {c : Proxy.Created} (h : c.error ≠ .ok) :
    s.openChannel c o = some (s, c.error) := by
  obtain ⟨error, channel, isNew⟩ := c
  cases error with
  | ok => exact absurd rfl h
  | _ => rfl

/-- The shared channel is none so far, or the new entry stays a private one. -/
def Unshared (s : Proxy) (p : Nat) (shared : Option Nat) : Prop :=
  (shared = s.sharedChannel ∧ s.sharedChannel ≠ some p) ∨
    (shared = some p ∧ s.sharedChannel = none)

/-- The descriptor of the new entry is opened, or the entry is taken back. -/
theorem openChannel_new {shared : Option Nat} (hp : s.heap p = none) (hshared : Unshared s p shared) :
    Proxy.openChannel { s.put p ⟨1, 0, []⟩ with sharedChannel := shared } ⟨.ok, some p, true⟩ o =
      match o.channelFd with
      | none => some (s, .integrationError)
      | some fd => some
        ({ s.put p ⟨1, fd, []⟩ with sharedChannel := shared, os := s.os.opened .channel fd },
          .ok) := by
  unfold Proxy.openChannel
  cases o.channelFd with
  | some fd => simp [Proxy.put]
  | none =>
    have hback : (if shared = some p then none else shared) = s.sharedChannel := by
      rcases hshared with ⟨rfl, hne⟩ | ⟨rfl, hnone⟩
      · exact if_neg hne
      · rw [if_pos rfl, hnone]
    have hheap : Function.update s.heap p none = s.heap := by
      rw [← hp, Function.update_eq_self]
    simp [Proxy.internalCloseChannel, Proxy.deleteChannelEntry, Proxy.put, decrement, toUint32,
      hback, hheap]

theorem internalCreateChannel_effect (flags : Nat) (hasResult : Bool)
    (hentry : ∀ p ∈ o.entry, p ≠ 0 ∧ s.heap p = none)
    (hlive : ∀ p, s.sharedChannel = some p → s.heap p ≠ none) :
    (∃ c, s.internalCreateChannel flags hasResult o = some (s, c) ∧ c.error ≠ .ok) ∨
    (∃ p shared, o.entry = some p ∧ Unshared s p shared ∧
      s.internalCreateChannel flags hasResult o =
        some ({ s.put p ⟨1, 0, []⟩ with sharedChannel := shared }, ⟨.ok, some p, true⟩)) ∨
    ∃ p e, flags = NMF_CHANNEL_SHARED ∧ s.sharedChannel = some p ∧ s.heap p = some e ∧
      s.internalCreateChannel flags hasResult o =
        some (s.put p { e with count := toUint32 (e.count + 1) }, ⟨.ok, some p, false⟩) := by
  unfold Proxy.internalCreateChannel
  cases hasResult with
  | false => exact .inl ⟨_, rfl, fun h => nomatch h⟩
  | true =>
    rw [if_neg (by simp)]
    by_cases hflags : flags = NMF_CHANNEL_SHARED
    · rw [if_pos hflags]
      cases hshared : s.sharedChannel with
      | some p =>
        obtain ⟨e, he⟩ := Option.ne_none_iff_exists'.mp (hlive p hshared)
        refine .inr (.inr ⟨p, e, hflags, rfl, he, ?_⟩)
        simp [Proxy.countUser, he]
      | none =>
        unfold Proxy.createChannelEntry
        cases hp : o.entry with
        | none => exact .inl ⟨_, rfl, fun h => nomatch h⟩
        | some p =>
          cases o.lock with
          | false => exact .inl ⟨_, rfl, fun h => nomatch h⟩
          | true =>
            refine .inr (.inl ⟨p, some p, rfl, .inr ⟨rfl, hshared⟩, ?_⟩)
            simp [Proxy.countUser, Proxy.put, toUint32]
    · rw [if_neg hflags]
      by_cases hprivate : flags = NMF_CHANNEL_PRIVATE
      · rw [if_pos hprivate]
        unfold Proxy.createChannelEntry
        cases hp : o.entry with
        | none => exact .inl ⟨_, rfl, fun h => nomatch h⟩
        | some p =>
          cases o.lock with
          | false => exact .inl ⟨_, rfl, fun h => nomatch h⟩
          | true =>
            have hne : s.sharedChannel ≠ some p := fun h => hlive p h (hentry p hp).2
            refine .inr (.inl ⟨p, s.sharedChannel, rfl, .inl ⟨rfl, hne⟩, ?_⟩)
            simp [Proxy.countUser, Proxy.put, toUint32]
      · rw [if_neg hprivate]
        exact .inl ⟨_, rfl, fun h => nomatch h⟩

/-- A new entry with its one user. -/
def withEntry (s : Proxy) (p fd : Nat) (shared : Option Nat) : Proxy :=
  { s.put p ⟨1, fd, []⟩ with
    sharedChannel := shared
    usageCount := s.usageCount + 1
    os := s.os.opened .channel fd }

/-- What a `CM_CreateChannel` does: nothing, or there is a new entry with a descriptor, or one more
user of the shared channel. -/
theorem createChannel_effect (hinv : Inv s) (hfits : s.Fits o) {flags : Nat} {hasResult : Bool}
    (horderly : Orderly s (.createChannel flags hasResult o)) :
    ∃ t error channel, s.createChannel flags hasResult o = some (t, error, channel) ∧
      ((error ≠ .ok ∧ Unmoved s t) ∨
      (error = .ok ∧ ∃ u p fd shared, channel = some p ∧ ControlOpened s u ∧ p ≠ 0 ∧
        s.heap p = none ∧ fd ≠ 0 ∧ u.os.descriptors fd = none ∧ Unshared s p shared ∧
        t = withEntry u p fd shared) ∨
      (error = .ok ∧ ∃ p e, channel = some p ∧ s.sharedChannel = some p ∧ s.heap p = some e ∧
        e.count + 1 < 4294967296 ∧
        t = { s.put p { e with count := e.count + 1 } with
          usageCount := s.usageCount + 1 })) := by
  obtain ⟨husage, hfd, hroom⟩ := horderly
  unfold Proxy.createChannel
  rcases control_effect hfits with ⟨t, error, heq, herror, hunmoved⟩ | ⟨u, heq, hopened, hfree⟩
  · rw [heq]
    refine ⟨t, error, none, ?_, .inl ⟨herror, hunmoved⟩⟩
    cases error with
    | ok => exact absurd rfl herror
    | _ => rfl
  rw [heq]
  have hcount : ∀ v : Proxy, v.usageCount = s.usageCount →
      v.countUsage .ok = { v with usageCount := s.usageCount + 1 } := by
    intro v hv
    unfold Proxy.countUsage
    rw [if_pos rfl, hv, toUint32_of_lt husage]
  have hentry : ∀ p ∈ o.entry, p ≠ 0 ∧ u.heap p = none := hopened.heap ▸ hfits.2.2
  have hlive : ∀ p, u.sharedChannel = some p → u.heap p ≠ none := by
    rw [hopened.heap, hopened.sharedChannel]
    exact hinv.shared
  rcases internalCreateChannel_effect flags hasResult hentry hlive with
    ⟨c, hc, herror⟩ | ⟨p, shared, hp, hshared, hc⟩ | ⟨p, e, hflags, hshared, he, hc⟩
  · refine ⟨u.countUsage c.error, c.error, c.channel, ?_, .inl ⟨herror, hopened.unmoved herror⟩⟩
    simp only [hc, Option.bind_some, openChannel_error herror, Option.map_some]
  · obtain ⟨hzero, hnone⟩ := hentry p hp
    simp only [hc, Option.bind_some, openChannel_new hnone hshared]
    cases hchannel : o.channelFd with
    | none =>
      have herror : NmfError.integrationError ≠ .ok := fun h => nomatch h
      exact ⟨_, _, _, rfl, .inl ⟨herror, hopened.unmoved herror⟩⟩
    | some fd =>
      have hfd' : fd ≠ 0 := fun h => hfd (h ▸ hchannel)
      refine ⟨_, _, _, rfl, .inr (.inl ⟨rfl, u, p, fd, shared, rfl, hopened, hzero,
        hopened.heap ▸ hnone, hfd', hfree fd hchannel, ?_, ?_⟩)⟩
      · unfold Unshared at hshared ⊢
        rw [hopened.sharedChannel] at hshared
        exact hshared
      · unfold withEntry
        rw [hopened.usageCount]
        exact hcount _ hopened.usageCount
  · rw [hopened.sharedChannel] at hshared
    rw [hopened.heap] at he
    have hinv' := hinv.entry p e he
    have hlt : e.count + 1 < 4294967296 := by
      have hlog := hroom hflags p hshared
      have hcount := hinv'.count
      omega
    -- a shared channel has a user, so that the control device was open before
    have hused : u = s := by
      cases hopened with
      | before => rfl
      | now hzero =>
        have hle := hinv.users_le p
        have husers := hinv'.used
        omega
    subst hused
    simp only [hc, Option.bind_some]
    refine ⟨_, _, _, rfl, .inr (.inr ⟨rfl, p, e, rfl, hshared, he, hlt, ?_⟩)⟩
    rw [toUint32_of_lt hlt]
    exact hcount _ rfl

/-- The entry of the last user is gone, with its descriptor. -/
def withoutEntry (s : Proxy) (p : Nat) (e : ChannelEntry) : Proxy :=
  { s with
    heap := Function.update s.heap p none
    sharedChannel := if s.sharedChannel = some p then none else s.sharedChannel
    os := s.os.close e.channel
    usageCount := s.usageCount - 1 }

theorem closeChannel_effect (hinv : Inv s) (he : s.heap p = some e)
    (horderly : Orderly s (.closeChannel p)) :
    ∃ t, s.closeChannel p = some (t, .ok) ∧
      ((1 < users p s.log ∧ t = { s.put p { e with count := e.count - 1 } with
          usageCount := s.usageCount - 1 }) ∨
      (users p s.log = 1 ∧ registrations p s.log = 0 ∧
        t = if s.usageCount = 1 then (withoutEntry s p e).cmDestroy else withoutEntry s p e)) := by
  have hentry := hinv.entry p e he
  have hcount := hentry.count
  have hused := hentry.used
  have hregistered := hentry.registered
  have hle := hinv.users_le p
  have husage : decrement s.usageCount = s.usageCount - 1 :=
    decrement_of_pos (by omega) hinv.room
  have hdown : decrement e.count = e.count - 1 := decrement_of_pos (by omega) hentry.room
  unfold Proxy.closeChannel Proxy.internalCloseChannel
  rw [if_neg hentry.address, he, Option.bind_some, hdown]
  by_cases hlast : users p s.log = 1
  · have hnone := horderly hlast
    have hempty : e.serviceList = [] :=
      eq_nil_of_registeredOn hentry.counted.pos (by omega)
    have hzero : e.count - 1 = 0 := by omega
    refine ⟨_, ?_, .inr ⟨hlast, hnone, rfl⟩⟩
    have hone : s.usageCount - 1 = 0 ↔ s.usageCount = 1 := by omega
    simp [hzero, Proxy.deleteChannelEntry, Proxy.put, hempty, hentry.descriptor,
      Proxy.releaseUsage, withoutEntry, husage, hone]
  · have hmore : e.count - 1 ≠ 0 := by omega
    have hstays : s.usageCount - 1 ≠ 0 := by omega
    refine ⟨_, ?_, .inl ⟨by omega, rfl⟩⟩
    simp [hmore, Proxy.put, Proxy.releaseUsage, husage, hstays]

end Effect

/-- What a call does, the last argument being the state before its record is made. -/
inductive Effect (s : Proxy) (r : Record) : Proxy → Prop
  | nothing {t : Proxy} (hr : r.Silent) (h : Unmoved s t) : Effect s r t
  | opened {u : Proxy} {p fd : Nat} {shared : Option Nat} (hcreated : created r = some p)
      (hother : closed r = none ∧ registered r = none ∧ unregistered r = none)
      (hopened : ControlOpened s u) (hp : p ≠ 0) (hnone : s.heap p = none) (hfd : fd ≠ 0)
      (hfree : u.os.descriptors fd = none) (hshared : Unshared s p shared)
      (hroom : s.usageCount + 1 < 4294967296) :
    Effect s r (withEntry u p fd shared)
  | joined {p : Nat} {e : ChannelEntry} (hcreated : created r = some p)
      (hother : closed r = none ∧ registered r = none ∧ unregistered r = none)
      (he : s.heap p = some e) (hroom : e.count + 1 < 4294967296)
      (husage : s.usageCount + 1 < 4294967296) :
    Effect s r { s.put p { e with count := e.count + 1 } with usageCount := s.usageCount + 1 }
  | left {p : Nat} {e : ChannelEntry} (hcall : r = ⟨.closeChannel p, .ok, none, none⟩)
      (he : s.heap p = some e) (hmore : 1 < users p s.log) :
    Effect s r { s.put p { e with count := e.count - 1 } with usageCount := s.usageCount - 1 }
  | lastLeft {p : Nat} {e : ChannelEntry} (hcall : r = ⟨.closeChannel p, .ok, none, none⟩)
      (he : s.heap p = some e) (hlast : users p s.log = 1)
      (hservices : registrations p s.log = 0) :
    Effect s r (if s.usageCount = 1 then (withoutEntry s p e).cmDestroy else withoutEntry s p e)
  | registered {p : Nat} {e : ChannelEntry} {l : List ServiceEntry}
      (hregistered : registered r = some p)
      (hother : created r = none ∧ closed r = none ∧ unregistered r = none)
      (he : s.heap p = some e) (hroom : e.count + 1 < 4294967296) (hl : Counted l)
      (hsum : registeredOn l = registeredOn e.serviceList + 1) :
    Effect s r (s.put p { e with count := e.count + 1, serviceList := l })
  | unregistered {p : Nat} {e : ChannelEntry} {l : List ServiceEntry}
      (hunregistered : unregistered r = some p)
      (hother : created r = none ∧ closed r = none ∧ registered r = none)
      (he : s.heap p = some e) (hl : Counted l)
      (hsum : registeredOn l + 1 = registeredOn e.serviceList) :
    Effect s r (s.put p { e with count := e.count - 1, serviceList := l })

section Step
variable {s t u : Proxy} {p fd : Nat} {e e' : ChannelEntry} {r : Record} {log : List Record}

theorem EntryInv.keep (h : EntryInv p log e) (husers : users p (log ++ [r]) = users p log)
    (hregistrations : registrations p (log ++ [r]) = registrations p log) :
    EntryInv p (log ++ [r]) e where
  address := h.address
  count := by rw [husers, hregistrations, h.count]
  room := h.room
  used := by rw [husers]; exact h.used
  counted := h.counted
  registered := by rw [hregistrations, h.registered]
  descriptor := h.descriptor

/-- The record moves the balances of one channel at most. -/
def Record.About (r : Record) (p : Nat) : Prop :=
  (∀ q ∈ created r, q = p) ∧ (∀ q ∈ closed r, q = p) ∧ (∀ q ∈ registered r, q = p) ∧
    ∀ q ∈ unregistered r, q = p

theorem Record.About.others (h : r.About p) (log : List Record) {q : Nat} (hq : q ≠ p) :
    users q (log ++ [r]) = users q log ∧ registrations q (log ++ [r]) = registrations q log := by
  obtain ⟨hcreated, hclosed, hregistered, hunregistered⟩ := h
  have hcreated' : created r ≠ some q := fun h => hq (hcreated q h)
  have hclosed' : closed r ≠ some q := fun h => hq (hclosed q h)
  have hregistered' : registered r ≠ some q := fun h => hq (hregistered q h)
  have hunregistered' : unregistered r ≠ some q := fun h => hq (hunregistered q h)
  rw [users_snoc, registrations_snoc, if_neg hcreated', if_neg hclosed', if_neg hregistered',
    if_neg hunregistered']
  omega

theorem update_eq_some {heap : Nat → Option ChannelEntry} {q : Nat} {f : ChannelEntry} :
    Function.update heap p (some e) q = some f ↔ (q = p ∧ e = f) ∨ (q ≠ p ∧ heap q = some f) := by
  by_cases hq : q = p
  · subst hq
    simp
  · simp [hq]

theorem update_eq_none {heap : Nat → Option ChannelEntry} {q : Nat} :
    Function.update heap p (some e) q = none ↔ q ≠ p ∧ heap q = none := by
  by_cases hq : q = p
  · subst hq
    simp
  · simp [hq]

/-- An entry changes, and keeps its descriptor. -/
theorem Inv.put (hinv : Inv s) (he : s.heap p = some e) (hr : r.About p)
    (hchannel : e'.channel = e.channel) (hentry : EntryInv p (s.log ++ [r]) e') {n : Nat}
    (husage : usages (s.log ++ [r]) = n) (hroom : n < 4294967296) (hused : 0 < s.usageCount)
    (hstays : 0 < n) :
    Inv (Proxy.record { s.put p e' with usageCount := n } r) where
  entry := by
    intro q f hf
    rcases update_eq_some.mp hf with ⟨rfl, rfl⟩ | ⟨hq, hf⟩
    · exact hentry
    · obtain ⟨husers, hregistrations⟩ := hr.others s.log hq
      exact (hinv.entry q f hf).keep husers hregistrations
  free := by
    intro q hq
    obtain ⟨hne, hnone⟩ := update_eq_none.mp hq
    obtain ⟨husers, hregistrations⟩ := hr.others s.log hne
    have hfree := hinv.free q hnone
    exact ⟨husers.trans hfree.1, hregistrations.trans hfree.2⟩
  shared := fun q hq hnone => hinv.shared q hq (update_eq_none.mp hnone).2
  usage := husage
  room := hroom
  channels := by
    intro fd
    refine (hinv.channels fd).trans ⟨?_, ?_⟩
    · rintro ⟨q, f, hf, hfd⟩
      by_cases hq : q = p
      · subst hq
        have heq : e = f := Option.some.inj (he.symm.trans hf)
        exact ⟨q, e', update_eq_some.mpr (.inl ⟨rfl, rfl⟩), by rw [hchannel, heq, hfd]⟩
      · exact ⟨q, f, update_eq_some.mpr (.inr ⟨hq, hf⟩), hfd⟩
    · rintro ⟨q, f, hf, hfd⟩
      rcases update_eq_some.mp hf with ⟨rfl, rfl⟩ | ⟨-, hf⟩
      · exact ⟨q, e, he, hchannel.symm.trans hfd⟩
      · exact ⟨q, f, hf, hfd⟩
  own := by
    have hback : ∀ q f, Function.update s.heap p (some e') q = some f →
        ∃ g, s.heap q = some g ∧ g.channel = f.channel := by
      intro q f hf
      rcases update_eq_some.mp hf with ⟨rfl, rfl⟩ | ⟨-, hf⟩
      · exact ⟨e, he, hchannel.symm⟩
      · exact ⟨f, hf, rfl⟩
    intro q q' f f' hf hf' hchannels
    obtain ⟨g, hg, hgf⟩ := hback q f hf
    obtain ⟨g', hg', hgf'⟩ := hback q' f' hf'
    exact hinv.own q q' g g' hg hg' (hgf.trans (hchannels.trans hgf'.symm))
  control := by
    intro fd
    refine (hinv.control fd).trans ⟨?_, ?_⟩
    · exact fun h => ⟨hstays, h.2⟩
    · exact fun h => ⟨hused, h.2⟩
  held := fun _ => hinv.held hused
  closes := hinv.closes

theorem Inv.unmoved (hinv : Inv s) (h : Unmoved s t) (hr : r.Silent) : Inv (t.record r) where
  entry := by
    intro q f hf
    rw [Proxy.record, h.heap] at hf
    rw [Proxy.record, h.log]
    exact (hinv.entry q f hf).keep hr.users hr.registrations
  free := by
    intro q hq
    rw [Proxy.record, h.heap] at hq
    have hfree := hinv.free q hq
    rw [Proxy.record, h.log, hr.users, hr.registrations]
    exact hfree
  shared := by
    intro q hq
    rw [Proxy.record, h.sharedChannel] at hq
    rw [Proxy.record, h.heap]
    exact hinv.shared q hq
  usage := by
    rw [Proxy.record, h.log, h.usageCount, hr.usages]
    exact hinv.usage
  room := by
    rw [Proxy.record, h.usageCount]
    exact hinv.room
  channels := by
    intro fd
    rw [Proxy.record, h.descriptors, h.heap]
    exact hinv.channels fd
  own := by
    rw [Proxy.record, h.heap]
    exact hinv.own
  control := by
    intro fd
    rw [Proxy.record, h.descriptors, h.usageCount]
    refine (hinv.control fd).trans (and_congr_right fun hused => ?_)
    rw [h.controlFd hused]
  held := by
    rw [Proxy.record, h.usageCount]
    intro hused
    rw [h.controlFd hused]
    exact hinv.held hused
  closes := by
    obtain ⟨cs, hcs, hall⟩ := h.closes
    intro c hc
    rw [Proxy.record, hcs] at hc
    rcases List.mem_append.mp hc with hc | hc
    · exact hinv.closes c hc
    · rw [hall c hc]
      exact fun h => nomatch h

theorem ControlOpened.channels (h : ControlOpened s u) (fd : Nat) :
    u.os.descriptors fd = some .channel ↔ s.os.descriptors fd = some .channel := by
  cases h with
  | before => exact Iff.rfl
  | now _ cfd hcfd =>
    by_cases hfd : fd = cfd
    · subst hfd
      simp [Os.opened, hcfd]
    · simp [Os.opened, hfd]

theorem ControlOpened.control (h : ControlOpened s u) (hinv : Inv s) :
    u.controlFd ≠ none ∧ ∀ fd, u.os.descriptors fd = some .control ↔ u.controlFd = some fd := by
  cases h with
  | before hused =>
    refine ⟨hinv.held hused, fun fd => (hinv.control fd).trans ?_⟩
    exact and_iff_right hused
  | now hfree cfd hcfd =>
    refine ⟨(fun h => nomatch h), fun fd => ?_⟩
    by_cases hfd : fd = cfd
    · subst hfd
      simp [Os.opened]
    · have hno : s.os.descriptors fd ≠ some .control := by
        intro h
        exact Nat.ne_of_gt ((hinv.control fd).mp h).1 hfree
      simp [Os.opened, hfd, hno, Ne.symm hfd]

theorem ControlOpened.closes (h : ControlOpened s u) : u.os.closes = s.os.closes := by
  cases h <;> rfl

theorem withEntry_log (shared : Option Nat) :
    ((withEntry u p fd shared).record r).log = u.log ++ [r] := rfl

theorem withEntry_usageCount (shared : Option Nat) :
    ((withEntry u p fd shared).record r).usageCount = u.usageCount + 1 := rfl

/-- A new entry is its one user's. -/
theorem Inv.opened (hinv : Inv s) (hopened : ControlOpened s u) (hp : p ≠ 0)
    (hnone : s.heap p = none) (hfd : fd ≠ 0) (hfree : u.os.descriptors fd = none)
    {shared : Option Nat} (hshared : Unshared s p shared) (hroom : s.usageCount + 1 < 4294967296)
    (hr : r.About p) (husers : users p (s.log ++ [r]) = users p s.log + 1)
    (husages : usages (s.log ++ [r]) = usages s.log + 1)
    (hregistrations : registrations p (s.log ++ [r]) = registrations p s.log) :
    Inv ((withEntry u p fd shared).record r) where
  entry := by
    intro q f hf
    rw [withEntry_log, hopened.log]
    rcases update_eq_some.mp hf with ⟨rfl, rfl⟩ | ⟨hq, hf⟩
    · obtain ⟨husers', hregistrations'⟩ := hinv.free q hnone
      rw [husers'] at husers
      rw [hregistrations'] at hregistrations
      refine ⟨hp, ?_, (by omega : 1 < 4294967296), ?_, ⟨(fun _ h => nomatch h),
        (by omega : 0 < 4294967296)⟩, hregistrations, hfd⟩
      · rw [husers, hregistrations]
        rfl
      · omega
    · obtain ⟨husers', hregistrations'⟩ := hr.others s.log hq
      exact (hinv.entry q f (hopened.heap ▸ hf)).keep husers' hregistrations'
  free := by
    intro q hq
    obtain ⟨hne, hq⟩ := update_eq_none.mp hq
    obtain ⟨husers', hregistrations'⟩ := hr.others s.log hne
    have hfree' := hinv.free q (hopened.heap ▸ hq)
    rw [withEntry_log, hopened.log]
    exact ⟨husers'.trans hfree'.1, hregistrations'.trans hfree'.2⟩
  shared := by
    intro q hq hnone'
    obtain ⟨hne, hq'⟩ := update_eq_none.mp hnone'
    rcases hshared with ⟨rfl, -⟩ | ⟨rfl, -⟩
    · exact hinv.shared q hq (hopened.heap ▸ hq')
    · exact hne (Option.some.inj hq).symm
  usage := by
    rw [withEntry_log, hopened.log, husages, hinv.usage, withEntry_usageCount,
      hopened.usageCount]
    rfl
  room := by
    rw [withEntry_usageCount, hopened.usageCount]
    exact hroom
  channels := by
    intro fd'
    by_cases hfd' : fd' = fd
    · subst hfd'
      refine ⟨fun _ => ⟨p, _, update_eq_some.mpr (.inl ⟨rfl, rfl⟩), rfl⟩, fun _ => ?_⟩
      exact Function.update_self ..
    · have hbefore := (hopened.channels fd').trans (hinv.channels fd')
      refine ((Function.update_of_ne hfd' _ _).congr_left).trans (hbefore.trans ⟨?_, ?_⟩)
      · rintro ⟨q, f, hf, hq⟩
        refine ⟨q, f, update_eq_some.mpr (.inr ⟨?_, hopened.heap ▸ hf⟩), hq⟩
        rintro rfl
        exact nomatch hnone.symm.trans hf
      · rintro ⟨q, f, hf, hq⟩
        rcases update_eq_some.mp hf with ⟨-, rfl⟩ | ⟨-, hf⟩
        · exact absurd hq.symm hfd'
        · exact ⟨q, f, hopened.heap ▸ hf, hq⟩
  own := by
    -- the new descriptor is that of no other entry
    have hnew : ∀ q f, s.heap q = some f → f.channel ≠ fd := by
      intro q f hf hq
      have hopen := (hopened.channels fd).mpr ((hinv.channels fd).mpr ⟨q, f, hf, hq⟩)
      exact nomatch hfree.symm.trans hopen
    intro q q' f f' hf hf' hchannels
    rcases update_eq_some.mp hf with ⟨rfl, rfl⟩ | ⟨-, hold⟩
    · rcases update_eq_some.mp hf' with ⟨rfl, -⟩ | ⟨-, hold'⟩
      · rfl
      · exact absurd hchannels.symm (hnew q' f' (hopened.heap ▸ hold'))
    · rcases update_eq_some.mp hf' with ⟨rfl, rfl⟩ | ⟨-, hold'⟩
      · exact absurd hchannels (hnew q f (hopened.heap ▸ hold))
      · exact hinv.own q q' f f' (hopened.heap ▸ hold) (hopened.heap ▸ hold') hchannels
  control := by
    intro fd'
    have hcontrol := (hopened.control hinv).2
    refine Iff.trans ?_ (and_iff_right (Nat.succ_pos _)).symm
    by_cases hfd' : fd' = fd
    · subst hfd'
      have hnot : u.controlFd ≠ some fd' := by
        intro h
        exact nomatch hfree.symm.trans ((hcontrol fd').mpr h)
      refine ⟨fun h => ?_, fun h => absurd h hnot⟩
      exact nomatch (Function.update_self ..).symm.trans h
    · exact ((Function.update_of_ne hfd' _ _).congr_left).trans (hcontrol fd')
  held := fun _ => (hopened.control hinv).1
  closes := by
    intro c hc
    exact hinv.closes c (hopened.closes ▸ hc)

theorem erase_eq_some {heap : Nat → Option ChannelEntry} {q : Nat} {f : ChannelEntry} :
    Function.update heap p none q = some f ↔ q ≠ p ∧ heap q = some f := by
  by_cases hq : q = p
  · subst hq
    simp
  · simp [hq]

theorem withoutEntry_shared {q : Nat} (h : (withoutEntry s p e).sharedChannel = some q) :
    q ≠ p ∧ s.sharedChannel = some q := by
  unfold withoutEntry at h
  dsimp only at h
  split at h
  · cases h
  · rename_i hne
    exact ⟨fun hq => hne (hq ▸ h), h⟩

/-- What is closed with the last user of an entry. -/
theorem closes_withoutEntry (hinv : Inv s) (he : s.heap p = some e) :
    ∃ cs, (if s.usageCount = 1 then (withoutEntry s p e).cmDestroy
        else withoutEntry s p e).os.closes = s.os.closes ++ (e.channel, some .channel) :: cs ∧
      ∀ c ∈ cs, c.2 = some .control := by
  have hopen := (hinv.channels e.channel).mpr ⟨p, e, he, rfl⟩
  have hclose : (withoutEntry s p e).os.closes = s.os.closes ++ [(e.channel, some .channel)] := by
    simp only [withoutEntry, Os.close, hopen]
  by_cases hlast : s.usageCount = 1
  · obtain ⟨cfd, hcfd⟩ := Option.ne_none_iff_exists'.mp (hinv.held (by omega))
    have hcontrol := (hinv.control cfd).mpr ⟨by omega, hcfd⟩
    have hne : cfd ≠ e.channel := by
      rintro rfl
      exact nomatch hopen.symm.trans hcontrol
    have hdevice : (withoutEntry s p e).os.descriptors cfd = some .control :=
      (Function.update_of_ne hne _ _).trans hcontrol
    have hfd : (withoutEntry s p e).controlFd = some cfd := hcfd
    refine ⟨[(cfd, some .control)], ?_, ?_⟩
    · rw [if_pos hlast]
      simp only [Proxy.cmDestroy, hfd, Os.close, hclose, hdevice, List.append_assoc]
      rfl
    · intro c hc
      rw [List.mem_singleton.mp hc]
  · refine ⟨[], ?_, fun _ h => nomatch h⟩
    rw [if_neg hlast]
    exact hclose

/-- The descriptors once the last user of an entry is gone. -/
theorem descriptors_withoutEntry (hinv : Inv s) (fd : Nat) :
    (if s.usageCount = 1 then (withoutEntry s p e).cmDestroy
      else withoutEntry s p e).os.descriptors fd =
    if fd = e.channel ∨ (s.usageCount = 1 ∧ s.controlFd = some fd) then none
    else s.os.descriptors fd := by
  have hafter : ∀ fd, (withoutEntry s p e).os.descriptors fd =
      if fd = e.channel then none else s.os.descriptors fd := by
    intro fd
    exact Function.update_apply ..
  by_cases hlast : s.usageCount = 1
  · obtain ⟨cfd, hcfd⟩ := Option.ne_none_iff_exists'.mp (hinv.held (by omega))
    have hfd : (withoutEntry s p e).controlFd = some cfd := hcfd
    simp only [Proxy.cmDestroy, hfd, Os.close, hlast, hcfd, true_and, Option.some.injEq]
    by_cases hc : fd = cfd
    · simp [hc]
    · simp [hc, Ne.symm hc, hafter]
  · simp [hlast, hafter]

/-- The last user takes its entry along. -/
theorem Inv.left (hinv : Inv s) (he : s.heap p = some e) (hlast : users p s.log = 1)
    (hservices : registrations p s.log = 0) (hr : r.About p)
    (husers : users p (s.log ++ [r]) = users p s.log - 1)
    (husages : usages (s.log ++ [r]) = usages s.log - 1)
    (hregistrations : registrations p (s.log ++ [r]) = registrations p s.log) :
    Inv ((if s.usageCount = 1 then (withoutEntry s p e).cmDestroy
      else withoutEntry s p e).record r) := by
  have hused : 0 < s.usageCount := by
    have hle := hinv.users_le p
    omega
  obtain ⟨cs, hcloses, hcontrols⟩ := closes_withoutEntry hinv he
  have hdescriptors := descriptors_withoutEntry (p := p) (e := e) hinv
  generalize hv : (if s.usageCount = 1 then (withoutEntry s p e).cmDestroy
    else withoutEntry s p e) = v at hcloses hdescriptors ⊢
  have hsame : v.heap = Function.update s.heap p none ∧ v.log = s.log ∧
      v.usageCount = s.usageCount - 1 ∧ v.controlFd = s.controlFd ∧
      v.sharedChannel = (withoutEntry s p e).sharedChannel := by
    rw [← hv]
    unfold Proxy.cmDestroy
    split
    · split <;> exact ⟨rfl, rfl, rfl, rfl, rfl⟩
    · exact ⟨rfl, rfl, rfl, rfl, rfl⟩
  obtain ⟨hheap, hlog, husage, hcontrolFd, hsharedChannel⟩ := hsame
  have hheap' : ∀ q f, v.heap q = some f ↔ q ≠ p ∧ s.heap q = some f := by
    intro q f
    rw [hheap]
    exact erase_eq_some
  refine ⟨?_, ?_, ?_, ?_, ?_, ?_, ?_, ?_, ?_, ?_⟩
  · intro q f hf
    obtain ⟨hq, hf⟩ := (hheap' q f).mp hf
    obtain ⟨husers', hregistrations'⟩ := hr.others s.log hq
    rw [Proxy.record, hlog]
    exact (hinv.entry q f hf).keep husers' hregistrations'
  · intro q hq
    have hlog' : (v.record r).log = s.log ++ [r] := congrArg (· ++ [r]) hlog
    rw [hlog']
    by_cases hqp : q = p
    · subst hqp
      constructor
      · omega
      · omega
    · obtain ⟨husers', hregistrations'⟩ := hr.others s.log hqp
      have hq' : v.heap q = none := hq
      rw [hheap, Function.update_of_ne hqp] at hq'
      have hfree := hinv.free q hq'
      exact ⟨husers'.trans hfree.1, hregistrations'.trans hfree.2⟩
  · intro q hq hnone
    obtain ⟨hne, hq⟩ := withoutEntry_shared (hsharedChannel.symm.trans hq)
    have hnone' : v.heap q = none := hnone
    rw [hheap, Function.update_of_ne hne] at hnone'
    exact hinv.shared q hq hnone'
  · rw [Proxy.record, hlog, husage, husages, hinv.usage]
    omega
  · have hroom := hinv.room
    rw [Proxy.record, husage]
    omega
  · intro fd
    have hopen := (hinv.channels e.channel).mpr ⟨p, e, he, rfl⟩
    refine (congrArg (· = some Device.channel) (hdescriptors fd)).to_iff.trans ?_
    constructor
    · intro h
      split at h
      · cases h
      · rename_i hnot
        obtain ⟨q, f, hf, hfd⟩ := (hinv.channels fd).mp h
        refine ⟨q, f, (hheap' q f).mpr ⟨?_, hf⟩, hfd⟩
        rintro rfl
        have heq : e = f := Option.some.inj (he.symm.trans hf)
        exact hnot (.inl (heq ▸ hfd.symm))
    · rintro ⟨q, f, hf, hfd⟩
      obtain ⟨hq, hf⟩ := (hheap' q f).mp hf
      have hchannel := (hinv.channels fd).mpr ⟨q, f, hf, hfd⟩
      rw [if_neg]
      · exact hchannel
      · rintro (h | ⟨-, h⟩)
        · exact hq (hinv.own q p f e hf he (hfd.trans h))
        · exact nomatch hchannel.symm.trans ((hinv.control fd).mpr ⟨hused, h⟩)
  · intro q q' f f' hf hf' hchannels
    exact hinv.own q q' f f' ((hheap' q f).mp hf).2 ((hheap' q' f').mp hf').2 hchannels
  · intro fd
    have hopen := (hinv.channels e.channel).mpr ⟨p, e, he, rfl⟩
    refine (congrArg (· = some Device.control) (hdescriptors fd)).to_iff.trans ?_
    rw [Proxy.record, husage, hcontrolFd]
    constructor
    · intro h
      split at h
      · cases h
      · rename_i hnot
        have hcontrol := (hinv.control fd).mp h
        refine ⟨?_, hcontrol.2⟩
        have hmore : s.usageCount ≠ 1 := fun hone => hnot (.inr ⟨hone, hcontrol.2⟩)
        omega
    · rintro ⟨hpos, hfd⟩
      have hcontrol := (hinv.control fd).mpr ⟨hused, hfd⟩
      rw [if_neg]
      · exact hcontrol
      · rintro (rfl | ⟨hone, -⟩)
        · exact nomatch hopen.symm.trans hcontrol
        · omega
  · intro _
    rw [Proxy.record, hcontrolFd]
    exact hinv.held hused
  · intro c hc
    rw [Proxy.record, hcloses] at hc
    rcases List.mem_append.mp hc with hc | hc
    · exact hinv.closes c hc
    · rcases List.mem_cons.mp hc with rfl | hc
      · exact fun h => nomatch h
      · rw [hcontrols c hc]
        exact fun h => nomatch h

theorem put_self (he : s.heap p = some e) : s.put p e = s := by
  unfold Proxy.put
  rw [← he, Function.update_eq_self]

/-- One step, by the five calls. -/
theorem step_effect (hinv : Inv s) {call : Call} (horderly : Orderly s call)
    (hstep : s.step call = some t) :
    ∃ r u, r.call = call ∧ t = u.record r ∧ Effect s r u ∧
      (∀ q hasResult flushed, call = .flushChannel q hasResult flushed →
        s.flushChannel q hasResult flushed = some (r.error, r.flush)) := by
  cases call with
  | createChannel flags hasResult o =>
    simp only [Proxy.step] at hstep
    split at hstep
    · rename_i hfits
      obtain ⟨u, error, channel, heq, heffect⟩ := createChannel_effect hinv hfits horderly
      rw [heq, Option.map_some] at hstep
      refine ⟨_, u, rfl, (Option.some.inj hstep).symm, ?_, fun _ _ _ h => nomatch h⟩
      rcases heffect with ⟨herror, hunmoved⟩ | ⟨rfl, v, p, fd, shared, rfl, hopened, hp, hnone,
        hfd, hfree, hshared, rfl⟩ | ⟨rfl, p, e, rfl, -, he, hroom, rfl⟩
      · exact .nothing (silent_of_error herror) hunmoved
      · exact .opened rfl ⟨rfl, rfl, rfl⟩ hopened hp hnone hfd hfree hshared horderly.1
      · exact .joined rfl ⟨rfl, rfl, rfl⟩ he hroom horderly.1
    · cases hstep
  | closeChannel p =>
    simp only [Proxy.step] at hstep
    by_cases hp : p = 0
    · subst hp
      cases hstep
      exact ⟨_, s, rfl, rfl, .nothing (silent_of_error (fun h => nomatch h)) (.refl s),
        fun _ _ _ h => nomatch h⟩
    · cases he : s.heap p with
      | none => simp [Proxy.closeChannel, Proxy.internalCloseChannel, hp, he] at hstep
      | some e =>
        obtain ⟨u, heq, heffect⟩ := closeChannel_effect hinv he horderly
        rw [heq, Option.map_some] at hstep
        refine ⟨_, u, rfl, (Option.some.inj hstep).symm, ?_, fun _ _ _ h => nomatch h⟩
        rcases heffect with ⟨hmore, rfl⟩ | ⟨hlast, hservices, rfl⟩
        · exact .left rfl he hmore
        · exact .lastLeft rfl he hlast hservices
  | registerService p handler ctx memory =>
    simp only [Proxy.step, Proxy.registerService] at hstep
    split at hstep
    · cases hstep
      exact ⟨_, s, rfl, rfl, .nothing (silent_of_error (fun h => nomatch h)) (.refl s),
        fun _ _ _ h => nomatch h⟩
    · cases he : s.heap p with
      | none => simp [he] at hstep
      | some e =>
        have hentry := hinv.entry p e he
        have hcount := hentry.count
        have hregistered := hentry.registered
        have hused := hentry.used
        have hroom : users p s.log + registrations p s.log + 1 < 4294967296 := horderly
        rw [he, Option.map_some, Option.map_some] at hstep
        refine ⟨_, _, rfl, (Option.some.inj hstep).symm, ?_, fun _ _ _ h => nomatch h⟩
        rcases registerService_effect handler ctx memory hentry.counted (by omega) (by omega) with
          heq | ⟨l, heq, hl, hsum⟩
        · rw [heq, put_self he]
          exact .nothing (silent_of_error (fun h => nomatch h)) (.refl s)
        · rw [heq]
          exact .registered rfl ⟨rfl, rfl, rfl⟩ he (by omega) hl hsum
  | unregisterService p handler ctx =>
    simp only [Proxy.step, Proxy.unregisterService] at hstep
    split at hstep
    · cases hstep
      exact ⟨_, s, rfl, rfl, .nothing (silent_of_error (fun h => nomatch h)) (.refl s),
        fun _ _ _ h => nomatch h⟩
    · cases he : s.heap p with
      | none => simp [he] at hstep
      | some e =>
        have hentry := hinv.entry p e he
        have hcount := hentry.count
        have hregistered := hentry.registered
        have hused := hentry.used
        rw [he, Option.map_some, Option.map_some] at hstep
        refine ⟨_, _, rfl, (Option.some.inj hstep).symm, ?_, fun _ _ _ h => nomatch h⟩
        rcases unregisterService_effect handler ctx hentry.counted hentry.room (by omega) with
          heq | ⟨l, heq, hl, hsum⟩
        · rw [heq, put_self he]
          exact .nothing (silent_of_error (fun h => nomatch h)) (.refl s)
        · rw [heq]
          exact .unregistered rfl ⟨rfl, rfl, rfl⟩ he hl hsum
  | flushChannel p hasResult flushed =>
    simp only [Proxy.step] at hstep
    obtain ⟨q, hq, rfl⟩ := Option.map_eq_some_iff.mp hstep
    refine ⟨_, s, rfl, rfl, ?_, ?_⟩
    · exact .nothing ⟨by simp [created], rfl, rfl, rfl⟩ (.refl s)
    · rintro q' hasResult' flushed' hcall
      cases hcall
      exact hq

/-- The invariant, by what a step does. -/
theorem inv_effect (hinv : Inv s) (h : Effect s r u) : Inv (u.record r) := by
  cases h with
  | nothing hr h => exact hinv.unmoved h hr
  | opened hcreated hother hopened hp hnone hfd hfree hshared hroom =>
    obtain ⟨hclosed, hregistered, hunregistered⟩ := hother
    refine hinv.opened hopened hp hnone hfd hfree hshared hroom ?_ ?_ ?_ ?_
    · simp [Record.About, hcreated, hclosed, hregistered, hunregistered]
    · simp [users_snoc, hcreated, hclosed]
    · simp [usages_snoc, hcreated, hclosed]
    · simp [registrations_snoc, hregistered, hunregistered]
  | @joined p e hcreated hother he hroom husage =>
    obtain ⟨hclosed, hregistered, hunregistered⟩ := hother
    have hentry := hinv.entry p e he
    have hle := hinv.users_le p
    have hcount := hentry.count
    have hused := hentry.used
    have husers : users p (s.log ++ [r]) = users p s.log + 1 := by
      simp [users_snoc, hcreated, hclosed]
    have hsame : registrations p (s.log ++ [r]) = registrations p s.log := by
      simp [registrations_snoc, hregistered, hunregistered]
    have hentry' : EntryInv p (s.log ++ [r]) { e with count := e.count + 1 } := by
      refine ⟨hentry.address, ?_, hroom, by omega, hentry.counted, hsame.trans hentry.registered,
        hentry.descriptor⟩
      rw [husers, hsame]
      push_cast
      omega
    refine hinv.put he ?_ ?_ hentry' ?_ husage (by omega) (by omega)
    · simp [Record.About, hcreated, hclosed, hregistered, hunregistered]
    · rfl
    · simp [usages_snoc, hcreated, hclosed, hinv.usage]
  | @left p e hcall he hmore =>
    have hentry := hinv.entry p e he
    have hle := hinv.users_le p
    have hcount := hentry.count
    have hregistered := hentry.registered
    have hcreated : created r = none := by rw [hcall]; rfl
    have hclosed : closed r = some p := by rw [hcall]; rfl
    have hother : registered r = none ∧ unregistered r = none := by rw [hcall]; exact ⟨rfl, rfl⟩
    have husers : users p (s.log ++ [r]) = users p s.log - 1 := by
      simp [users_snoc, hcreated, hclosed]
    have hsame : registrations p (s.log ++ [r]) = registrations p s.log := by
      simp [registrations_snoc, hother]
    have hroom := hinv.room
    have hroom' := hentry.room
    have hentry' : EntryInv p (s.log ++ [r]) { e with count := e.count - 1 } := by
      refine ⟨hentry.address, ?_, (by omega : e.count - 1 < 4294967296), by omega, hentry.counted,
        hsame.trans hentry.registered, hentry.descriptor⟩
      rw [husers, hsame]
      dsimp only
      omega
    have hless : s.usageCount - 1 < 4294967296 := by omega
    refine hinv.put he ?_ ?_ hentry' ?_ hless (by omega) (by omega)
    · simp [Record.About, hcreated, hclosed, hother]
    · rfl
    · have husage := hinv.usage
      simp only [usages_snoc, hcreated, hclosed, Option.isSome_none, Option.isSome_some,
        Bool.false_eq_true, if_false, if_true]
      omega
  | @lastLeft p e hcall he hlast hservices =>
    have hcreated : created r = none := by rw [hcall]; rfl
    have hclosed : closed r = some p := by rw [hcall]; rfl
    have hother : registered r = none ∧ unregistered r = none := by rw [hcall]; exact ⟨rfl, rfl⟩
    refine hinv.left he hlast hservices ?_ ?_ ?_ ?_
    · simp [Record.About, hcreated, hclosed, hother]
    · simp [users_snoc, hcreated, hclosed]
    · simp [usages_snoc, hcreated, hclosed]
    · simp [registrations_snoc, hother]
  | @registered p e l hregistered hother he hroom hl hsum =>
    obtain ⟨hcreated, hclosed, hunregistered⟩ := hother
    have hentry := hinv.entry p e he
    have hle := hinv.users_le p
    have hcount := hentry.count
    have hused := hentry.used
    have hsame : users p (s.log ++ [r]) = users p s.log := by
      simp [users_snoc, hcreated, hclosed]
    have hmore : registrations p (s.log ++ [r]) = registrations p s.log + 1 := by
      simp [registrations_snoc, hregistered, hunregistered]
    have hbefore := hentry.registered
    have hentry' : EntryInv p (s.log ++ [r]) { e with count := e.count + 1, serviceList := l } := by
      refine ⟨hentry.address, ?_, hroom, by omega, hl, ?_, hentry.descriptor⟩
      · rw [hsame, hmore]
        push_cast
        omega
      · rw [hmore]
        dsimp only
        omega
    refine hinv.put he ?_ ?_ hentry' ?_ hinv.room (by omega) (by omega)
    · simp [Record.About, hcreated, hclosed, hregistered, hunregistered]
    · rfl
    · simp [usages_snoc, hcreated, hclosed, hinv.usage]
  | @unregistered p e l hunregistered hother he hl hsum =>
    obtain ⟨hcreated, hclosed, hregistered⟩ := hother
    have hentry := hinv.entry p e he
    have hle := hinv.users_le p
    have hcount := hentry.count
    have hused := hentry.used
    have hroom := hentry.room
    have hsame : users p (s.log ++ [r]) = users p s.log := by
      simp [users_snoc, hcreated, hclosed]
    have hless : registrations p (s.log ++ [r]) = registrations p s.log - 1 := by
      simp [registrations_snoc, hregistered, hunregistered]
    have hbefore := hentry.registered
    have hentry' : EntryInv p (s.log ++ [r]) { e with count := e.count - 1, serviceList := l } := by
      refine ⟨hentry.address, ?_, (by omega : e.count - 1 < 4294967296), by omega, hl, ?_,
        hentry.descriptor⟩
      · rw [hsame, hless]
        dsimp only
        omega
      · rw [hless]
        dsimp only
        omega
    refine hinv.put he ?_ ?_ hentry' ?_ hinv.room (by omega) (by omega)
    · simp [Record.About, hcreated, hclosed, hregistered, hunregistered]
    · rfl
    · simp [usages_snoc, hcreated, hclosed, hinv.usage]

theorem inv_step (hinv : Inv s) {call : Call} (horderly : Orderly s call)
    (hstep : s.step call = some t) : Inv t := by
  obtain ⟨r, u, -, rfl, heffect, -⟩ := step_effect hinv horderly hstep
  exact inv_effect hinv heffect

theorem inv_run {calls : List Call} (hok : Meets Proxy.step Orderly .init calls)
    (hrun : run Proxy.step .init calls = some s) : Inv s :=
  run_induction_of_meets (P := Inv) (fun _ _ _ h hok hstep => inv_step h hok hstep) inv_init hok
    hrun

end Step

/-- What is to hold of the channels in every state. -/
structure Consistent (s : Proxy) : Prop where
  alive : ∀ p, (∃ e, s.heap p = some e) ↔ 0 < users p s.log
  descriptor : ∀ fd, s.os.descriptors fd = some .channel ↔
    ∃ p e, s.heap p = some e ∧ e.channel = fd
  own : ∀ p q e f, s.heap p = some e → s.heap q = some f → e.channel = f.channel → p = q
  usage : (s.usageCount : Int) = usages s.log
  control : (∃ fd, s.os.descriptors fd = some .control) ↔ 0 < usages s.log
  once : ∀ fd fd', s.os.descriptors fd = some .control → s.os.descriptors fd' = some .control →
    fd = fd'
  closes : ∀ c ∈ s.os.closes, c.2 ≠ none

/-- The descriptors of channels that were closed. -/
def channelCloses (os : Os) : List Nat :=
  os.closes.filterMap fun c => if c.2 = some .channel then some c.1 else none

def LastClose (s : Proxy) (r : Record) (p : Nat) : Prop :=
  r.call = .closeChannel p ∧ r.error = .ok ∧ users p s.log = 1

structure Unchanged (s t : Proxy) : Prop where
  heap : t.heap = s.heap
  sharedChannel : t.sharedChannel = s.sharedChannel
  usageCount : t.usageCount = s.usageCount
  descriptors : t.os.descriptors = s.os.descriptors

/-- What is to hold of every call. -/
structure Correct (s : Proxy) (r : Record) (t : Proxy) : Prop where
  kept : ∀ p e, s.heap p = some e → ¬ LastClose s r p →
    ∃ f, t.heap p = some f ∧ f.channel = e.channel
  freed : ∀ p e, s.heap p = some e → LastClose s r p →
    t.heap p = none ∧ channelCloses t.os = channelCloses s.os ++ [e.channel]
  silent : (∀ p, ¬ LastClose s r p) → channelCloses t.os = channelCloses s.os
  refused : ∀ p, r.call = .closeChannel p → users p s.log = 1 → 0 < registrations p s.log →
    r.error = .invalidParameter ∧ Unchanged s t
  flushed : ∀ p answer e, r.call = .flushChannel p true answer → s.heap p = some e →
    r.flush = if users p s.log = 1 then some e.channel else none
  unchanged : r.error ≠ .ok → Unchanged s t

/-- Users close, register on and flush channels that they have created. -/
def Proper (s : Proxy) : Call → Prop
  | .createChannel _ _ o => s.Fits o
  | .closeChannel p | .registerService p _ _ _ | .unregisterService p _ _ | .flushChannel p _ _ =>
    p = 0 ∨ 0 < users p s.log

section Results
variable {s t u : Proxy} {p : Nat} {e : ChannelEntry} {r : Record}

theorem Inv.alive (hinv : Inv s) (p : Nat) : (∃ e, s.heap p = some e) ↔ 0 < users p s.log := by
  constructor
  · rintro ⟨e, he⟩
    exact (hinv.entry p e he).used
  · intro hused
    apply Option.ne_none_iff_exists'.mp
    intro hnone
    rw [(hinv.free p hnone).1] at hused
    exact absurd hused (Int.lt_irrefl 0)

theorem consistent_of_inv (hinv : Inv s) : Consistent s where
  alive := hinv.alive
  descriptor := hinv.channels
  own := hinv.own
  usage := hinv.usage.symm
  control := by
    rw [hinv.usage, Int.natCast_pos]
    constructor
    · rintro ⟨fd, hfd⟩
      exact ((hinv.control fd).mp hfd).1
    · intro hused
      obtain ⟨fd, hfd⟩ := Option.ne_none_iff_exists'.mp (hinv.held hused)
      exact ⟨fd, (hinv.control fd).mpr ⟨hused, hfd⟩⟩
  once := by
    intro fd fd' hfd hfd'
    have h := ((hinv.control fd).mp hfd).2
    have h' := ((hinv.control fd').mp hfd').2
    exact Option.some.inj (h.symm.trans h')
  closes := hinv.closes

theorem channelCloses_append {os : Os} {closes cs : List (Nat × Option Device)}
    (h : os.closes = closes ++ cs) (hcs : ∀ c ∈ cs, c.2 = some .control) :
    channelCloses os = closes.filterMap fun c => if c.2 = some .channel then some c.1 else none := by
  unfold channelCloses
  rw [h, List.filterMap_append]
  have hnil : (cs.filterMap fun c => if c.2 = some .channel then some c.1 else none) = [] := by
    apply List.filterMap_eq_nil_iff.mpr
    intro c hc
    rw [hcs c hc]
    rfl
  rw [hnil, List.append_nil]

theorem Unmoved.unchanged (h : Unmoved s t) : Unchanged s (t.record r) where
  heap := h.heap
  sharedChannel := h.sharedChannel
  usageCount := h.usageCount
  descriptors := h.descriptors

/-- A call that puts an entry, where it was or at a new address, closes no channel. -/
theorem kept_of_put {heap : Nat → Option ChannelEntry} {q : Nat} {f e' : ChannelEntry}
    (hold : ∀ e, heap p = some e → e'.channel = e.channel)
    (hf : heap q = some f) :
    ∃ g, Function.update heap p (some e') q = some g ∧ g.channel = f.channel := by
  by_cases hq : q = p
  · subst hq
    exact ⟨e', Function.update_self .., hold f hf⟩
  · exact ⟨f, (Function.update_of_ne hq _ _).trans hf, rfl⟩

theorem LastClose.closed (h : LastClose s r p) : closed r = some p := by
  unfold CmProxy.closed
  rw [h.1, h.2.1]
  rfl

/-- The descriptor that a flush is asked for is that of the entry, if its user is the last. -/
theorem flush_effect (hinv : Inv s) (he : s.heap p = some e) {flushed : Bool}
    (horderly : Orderly s (.flushChannel p true flushed)) {error : NmfError} {flush : Option Nat}
    (h : s.flushChannel p true flushed = some (error, flush)) :
    flush = if users p s.log = 1 then some e.channel else none := by
  have hentry := hinv.entry p e he
  have hcount := hentry.count
  have hused := hentry.used
  have hregistered := hentry.registered
  have hlast : users p s.log = 1 → registrations p s.log = 0 := horderly
  unfold Proxy.flushChannel at h
  rw [if_neg (by simp [hentry.address]), he, Option.map_some] at h
  by_cases hone : users p s.log = 1
  · have hcount' : e.count = 1 := by
      have hzero := hlast hone
      omega
    simp only [hcount', if_true, if_neg hentry.descriptor, Option.some.injEq, Prod.mk.injEq] at h
    rw [if_pos hone, h.2]
  · have hcount' : e.count ≠ 1 := by omega
    simp only [if_neg hcount', if_true, Option.some.injEq, Prod.mk.injEq] at h
    rw [if_neg hone, h.2]

/-- A call that is no last close leaves every entry with its descriptor. -/
theorem correct_of_kept (horderly : Orderly s r.call)
    (hflush : ∀ p answer e, r.call = .flushChannel p true answer → s.heap p = some e →
      r.flush = if users p s.log = 1 then some e.channel else none)
    (hno : ∀ p, ¬ LastClose s r p)
    (hkept : ∀ p e, s.heap p = some e → ∃ f, t.heap p = some f ∧ f.channel = e.channel)
    (hcloses : channelCloses t.os = channelCloses s.os)
    (hunchanged : r.error ≠ .ok → Unchanged s t) : Correct s r t where
  kept := fun p e he _ => hkept p e he
  freed := fun p _ _ h => absurd h (hno p)
  silent := fun _ => hcloses
  refused := by
    intro p hcall hlast hregistered
    rw [hcall] at horderly
    exact absurd (horderly hlast) (Int.ne_of_gt hregistered)
  flushed := hflush
  unchanged := hunchanged

theorem no_lastClose (h : closed r = none) (p : Nat) : ¬ LastClose s r p :=
  fun hlast => nomatch h.symm.trans hlast.closed

theorem ok_of_created (h : created r = some p) : r.error = .ok := by
  by_contra herror
  exact nomatch (silent_of_error herror).1.symm.trans h

theorem ok_of_registered (h : registered r = some p) : r.error = .ok := by
  by_contra herror
  exact nomatch (silent_of_error herror).2.2.1.symm.trans h

theorem ok_of_unregistered (h : unregistered r = some p) : r.error = .ok := by
  by_contra herror
  exact nomatch (silent_of_error herror).2.2.2.symm.trans h

theorem correct_of_effect (hinv : Inv s) (horderly : Orderly s r.call)
    (hflush : ∀ p answer e, r.call = .flushChannel p true answer → s.heap p = some e →
      r.flush = if users p s.log = 1 then some e.channel else none)
    (h : Effect s r u) : Correct s r (u.record r) := by
  cases h with
  | nothing hr h =>
    obtain ⟨cs, hcs, hcontrol⟩ := h.closes
    refine correct_of_kept horderly hflush (no_lastClose hr.2.1) ?_ ?_ fun _ => h.unchanged
    · intro p e he
      exact ⟨e, (congrFun h.heap p).trans he, rfl⟩
    · exact channelCloses_append hcs hcontrol
  | @opened v p fd shared hcreated hother hopened hp hnone =>
    refine correct_of_kept horderly hflush (no_lastClose hother.1) ?_ ?_
      fun herror => absurd (ok_of_created hcreated) herror
    · intro q f hf
      refine kept_of_put ?_ ((congrFun hopened.heap q).trans hf)
      intro e he
      exact nomatch hnone.symm.trans ((congrFun hopened.heap p).symm.trans he)
    · exact congrArg (List.filterMap _) hopened.closes
  | @joined p e hcreated hother he =>
    refine correct_of_kept horderly hflush (no_lastClose hother.1) ?_ rfl
      fun herror => absurd (ok_of_created hcreated) herror
    intro q f hf
    refine kept_of_put (fun g hg => ?_) hf
    rw [← Option.some.inj (he.symm.trans hg)]
  | @left p e hcall he hmore =>
    have hno : ∀ q, ¬ LastClose s r q := by
      rintro q ⟨hq, -, hlast⟩
      rw [hcall] at hq
      cases hq
      omega
    refine correct_of_kept horderly hflush hno ?_ rfl fun herror => absurd (by rw [hcall]) herror
    intro q f hf
    refine kept_of_put (fun g hg => ?_) hf
    rw [← Option.some.inj (he.symm.trans hg)]
  | @registered p e l hregistered hother he =>
    refine correct_of_kept horderly hflush (no_lastClose hother.2.1) ?_ rfl
      fun herror => absurd (ok_of_registered hregistered) herror
    intro q f hf
    refine kept_of_put (fun g hg => ?_) hf
    rw [← Option.some.inj (he.symm.trans hg)]
  | @unregistered p e l hunregistered hother he =>
    refine correct_of_kept horderly hflush (no_lastClose hother.2.1) ?_ rfl
      fun herror => absurd (ok_of_unregistered hunregistered) herror
    intro q f hf
    refine kept_of_put (fun g hg => ?_) hf
    rw [← Option.some.inj (he.symm.trans hg)]
  | @lastLeft p e hcall he hlast hservices =>
    obtain ⟨cs, hcs, hcontrol⟩ := closes_withoutEntry hinv he
    have hheap : (if s.usageCount = 1 then (withoutEntry s p e).cmDestroy
        else withoutEntry s p e).heap = Function.update s.heap p none := by
      unfold Proxy.cmDestroy
      split
      · split <;> rfl
      · rfl
    have hlastClose : LastClose s r p := ⟨by rw [hcall], by rw [hcall], hlast⟩
    have hclosed : r.call = .closeChannel p := by rw [hcall]
    have hok : r.error = .ok := by rw [hcall]
    refine ⟨?_, ?_, ?_, ?_, hflush, fun herror => absurd hok herror⟩
    · intro q f hf hno
      have hq : q ≠ p := by
        rintro rfl
        exact hno hlastClose
      exact ⟨f, (congrFun hheap q).trans ((Function.update_of_ne hq _ _).trans hf), rfl⟩
    · intro q f hf hq
      have hqp : q = p := by
        have heq := hq.1.symm.trans hclosed
        cases heq
        rfl
      subst hqp
      have hfe : f = e := Option.some.inj (hf.symm.trans he)
      refine ⟨(congrFun hheap q).trans (Function.update_self ..), ?_⟩
      have hhead : (e.channel, some Device.channel) :: cs = [(e.channel, some Device.channel)] ++ cs :=
        rfl
      rw [hhead, ← List.append_assoc] at hcs
      have hrest := channelCloses_append hcs hcontrol
      refine hrest.trans ?_
      rw [hfe]
      simp [channelCloses]
    · exact fun hnone => absurd hlastClose (hnone p)
    · intro q hq _ hregistered
      have heq := hq.symm.trans hclosed
      cases heq
      rw [hservices] at hregistered
      exact absurd hregistered (Int.lt_irrefl 0)

/-- No call meets a pointer that is no channel. -/
theorem step_isSome (hinv : Inv s) {call : Call} (horderly : Orderly s call)
    (hproper : Proper s call) : (s.step call).isSome := by
  cases call with
  | createChannel flags hasResult o =>
    obtain ⟨t, error, channel, heq, -⟩ := createChannel_effect hinv hproper horderly
    have hfits : s.Fits o := hproper
    simp [Proxy.step, hfits, heq]
  | closeChannel p =>
    rcases hproper with rfl | hused
    · rfl
    · obtain ⟨e, he⟩ := (hinv.alive p).mpr hused
      obtain ⟨t, heq, -⟩ := closeChannel_effect hinv he horderly
      simp [Proxy.step, heq]
  | registerService p handler ctx memory =>
    rcases hproper with rfl | hused
    · rfl
    · obtain ⟨e, he⟩ := (hinv.alive p).mpr hused
      simp only [Proxy.step, Proxy.registerService, he, Option.map_some]
      split <;> rfl
  | unregisterService p handler ctx =>
    rcases hproper with rfl | hused
    · rfl
    · obtain ⟨e, he⟩ := (hinv.alive p).mpr hused
      simp only [Proxy.step, Proxy.unregisterService, he, Option.map_some]
      split <;> rfl
  | flushChannel p hasResult flushed =>
    rcases hproper with rfl | hused
    · simp [Proxy.step, Proxy.flushChannel]
    · obtain ⟨e, he⟩ := (hinv.alive p).mpr hused
      simp only [Proxy.step, Proxy.flushChannel, he, Option.map_some]
      split
      · rfl
      · split <;> rfl

/-- In a run of orderly calls. -/
theorem channels_follow_their_users (calls : List Call) (s : Proxy)
    (hok : Meets Proxy.step Orderly .init calls) (hrun : run Proxy.step .init calls = some s) :
    Consistent s ∧ ∀ call, Orderly s call →
      (Proper s call → (s.step call).isSome) ∧ ∀ t, s.step call = some t →
        Consistent t ∧ ∃ r, r.call = call ∧ t.log = s.log ++ [r] ∧ Correct s r t := by
  have hinv := inv_run hok hrun
  refine ⟨consistent_of_inv hinv, fun call horderly => ⟨step_isSome hinv horderly, ?_⟩⟩
  intro t hstep
  refine ⟨consistent_of_inv (inv_step hinv horderly hstep), ?_⟩
  obtain ⟨r, u, rfl, rfl, heffect, hflush⟩ := step_effect hinv horderly hstep
  refine ⟨r, rfl, ?_, correct_of_effect hinv horderly ?_ heffect⟩
  · have hlog : u.log = s.log := by
      cases heffect with
      | nothing _ h => exact h.log
      | opened _ _ hopened => exact hopened.log
      | lastLeft =>
        unfold Proxy.cmDestroy
        split
        · split <;> rfl
        · rfl
      | _ => rfl
    exact congrArg (· ++ [r]) hlog
  · intro p answer e hcall he
    rw [hcall] at horderly
    exact flush_effect hinv he horderly (hflush p true answer hcall)

end Results

def sampleOpening (p fd : Nat) : Opening := ⟨some 3, some NMF_VERSION, true, some p, true, some fd⟩

/-- The shared channel with two users and a service, beside a private one for which there is no
device. -/
def sampleCalls : List Call :=
  [.createChannel NMF_CHANNEL_SHARED true (sampleOpening 8 4),
    .createChannel NMF_CHANNEL_PRIVATE true ⟨none, none, false, some 16, true, none⟩,
    .createChannel NMF_CHANNEL_SHARED true ⟨none, none, false, none, false, none⟩,
    .registerService 8 5 6 true, .closeChannel 8, .unregisterService 8 5 6,
    .flushChannel 8 true true, .closeChannel 8]

theorem channels_follow_their_users_sample :
    ∃ s, run Proxy.step .init sampleCalls = some s ∧
      s.os.closes = [(4, some .channel), (3, some .control)] ∧ Consistent s := by
  have hrun : ∃ s, run Proxy.step .init sampleCalls = some s ∧
      s.os.closes = [(4, some .channel), (3, some .control)] := ⟨_, rfl, rfl⟩
  obtain ⟨s, hs, hcloses⟩ := hrun
  exact ⟨s, hs, hcloses, (channels_follow_their_users sampleCalls s (by decide) hs).1⟩

/-- The last user leaves a service behind: the close is not refused, the channel and its descriptor
stay for ever, and before it no flush was asked for. -/
theorem service_left_behind :
    ∃ s t, run Proxy.step .init [.createChannel NMF_CHANNEL_PRIVATE true (sampleOpening 8 4),
        .registerService 8 5 6 true, .flushChannel 8 true true] = some s ∧
      users 8 s.log = 1 ∧ s.log.getLast? = some ⟨.flushChannel 8 true true, .ok, none, none⟩ ∧
      s.step (.closeChannel 8) = some t ∧
      t.log.getLast? = some ⟨.closeChannel 8, .ok, none, none⟩ ∧ users 8 t.log = 0 ∧
      t.heap 8 ≠ none ∧ t.os.descriptors 4 = some .channel ∧ t.usageCount = 0 :=
  ⟨_, _, rfl, rfl, rfl, rfl, rfl, rfl, (fun h => nomatch h), rfl, rfl⟩

end Codinalte.CmProxy
