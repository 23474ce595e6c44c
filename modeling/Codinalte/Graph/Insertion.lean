import Codinalte.Graph.Binder
import Codinalte.Graph.Soundness

/-! What is inserted in the binds of one composite. -/

namespace Codinalte.Graph
open Codinalte.Checks Codinalte.Keyed

/-- The components that a call passes through. -/
inductive Hop where
  | event
  | trace
  | proxystub
  | proxyskel
deriving DecidableEq

def Kind.hop : Kind → Option Hop
  | .event .. => some .event
  | .trace .. => some .trace
  | .proxystub .. => some .proxystub
  | .proxyskel .. => some .proxyskel
  | _ => none

/-- What has to be inserted in a bind: nothing where the host's end of a distributed bind is the
composite itself, and nothing that is passed through between two components on MPCs. -/
def hopsBetween (clientmpc servermpc : Option String) (bind : Bind) : List Hop :=
  match clientmpc, servermpc with
  | none, some _ => if bind.from_ = "this" then [] else [.proxystub]
  | some _, none => if bind.to_ = "this" then [] else [.proxyskel, .event]
  | some _, some _ => []
  | none, none => if bind.asynchronous then [.event] else if bind.trace then [.trace] else []

def hops (composite : Place) (bind : Bind) : List Hop :=
  hopsBetween ((composite.getFcSubComponent bind.from_).bind Place.getMPC)
    ((composite.getFcSubComponent bind.to_).bind Place.getMPC) bind

/-- How many components are inserted; between two MPCs it is one that nothing passes through. -/
def insertedBetween (clientmpc servermpc : Option String) (bind : Bind) : Nat :=
  match clientmpc, servermpc with
  | some _, some _ => 1
  | _, _ => (hopsBetween clientmpc servermpc bind).length

def inserted (composite : Place) (bind : Bind) : Nat :=
  insertedBetween ((composite.getFcSubComponent bind.from_).bind Place.getMPC)
    ((composite.getFcSubComponent bind.to_).bind Place.getMPC) bind

/-- A component that hands a call on from its `target` to its `target`. -/
structure Hands (c : Component) (hop : Hop) : Prop where
  raw : c.isComposite = false
  hop : c.kind.hop = some hop
  provide : ∃ provide, c.getProvide "target" = some provide ∧ provide.name = "target"

/-- What is done with one bind. -/
inductive Rebinds (composite : Place) (bind : Bind) (counts : Counts) (nbbc : Nat) :
    Rebound → Counts → Nat → Prop where
  | same (h : hops composite bind = []) (hinserted : inserted composite bind = 0) :
    Rebinds composite bind counts nbbc ⟨bind, [], []⟩ counts nbbc
  | beside (h : hops composite bind = []) (hinserted : inserted composite bind = 1) (c : Component)
      (hname : c.nameinowner = label "v" nbbc) (hhop : c.kind.hop = none)
      (hkind : c.kind ≠ .instantiated) :
    Rebinds composite bind counts nbbc ⟨bind, [], [c]⟩ counts (nbbc + 1)
  | stub (c : Component) (hname : c.nameinowner = label "p" counts.nbproxy)
      (h : hops composite bind = [.proxystub]) (hhands : Hands c .proxystub) :
    Rebinds composite bind counts nbbc (inFront bind c)
      { counts with nbproxy := counts.nbproxy + 1 } nbbc
  | front (c : Component) (hop : Hop) (hname : c.nameinowner = label "bc" counts.bcNumber)
      (h : hops composite bind = [hop]) (hhands : Hands c hop) :
    Rebinds composite bind counts nbbc (inFront bind c)
      { counts with bcNumber := counts.bcNumber + 1 } nbbc
  | skeleton (event skel : Component) (hevent : event.nameinowner = label "bc" counts.bcNumber)
      (hskel : skel.nameinowner = label "p" counts.nbproxy)
      (h : hops composite bind = [.proxyskel, .event]) (hhandsevent : Hands event .event)
      (hhandsskel : Hands skel .proxyskel) :
    Rebinds composite bind counts nbbc (behindSkeleton bind event skel)
      ⟨counts.bcNumber + 1, counts.nbproxy + 1⟩ nbbc

section Rebind
variable {gen : Generators} {composite : Place} {counts counts' : Counts} {nbbc nbbc' : Nat}
  {bind : Bind} {rebound : Rebound}

theorem bc_hands (name fullyname itf priority : String) (others : List Require × List Provide)
    {kind : Kind} {hop : Hop} (h : kind.hop = some hop) :
    Hands (bc name fullyname itf priority others kind) hop :=
  ⟨rfl, h, targetProvide itf, rfl, rfl⟩

theorem proxyhelper_hands (name fullyname itf : String) {kind : Kind} {hop : Hop}
    (h : kind.hop = some hop) : Hands (proxyhelper name fullyname itf kind) hop :=
  ⟨rfl, h, targetProvide itf, rfl, rfl⟩

theorem component_ok {place c : Place} {name : String} (h : component place name = .ok c) :
    place.getFcSubComponent name = some c := by
  unfold component at h
  split at h
  · cases h
  · next hc => exact hc.trans (congrArg some (Except.ok.inj h))

theorem rebind_cases (h : rebind gen composite counts nbbc bind = .ok (rebound, counts', nbbc')) :
    Rebinds composite bind counts nbbc rebound counts' nbbc' := by
  unfold rebind at h
  obtain ⟨client, hclient, h⟩ := bind_ok.mp h
  obtain ⟨server, hserver, h⟩ := bind_ok.mp h
  obtain ⟨type, -, h⟩ := bind_ok.mp h
  have hhops : hops composite bind = hopsBetween client.getMPC server.getMPC bind := by
    unfold hops
    rw [component_ok hclient, component_ok hserver]
    rfl
  have hinserted : inserted composite bind = insertedBetween client.getMPC server.getMPC bind := by
    unfold inserted
    rw [component_ok hclient, component_ok hserver]
    rfl
  split at h
  · next mpc hclientmpc hservermpc =>
    rw [hclientmpc, hservermpc] at hhops hinserted
    simp only [insertedBetween, hopsBetween] at hhops hinserted
    obtain ⟨-, h⟩ := seq_ok.mp h
    split at h
    · next hthis =>
      rw [if_pos hthis] at hhops hinserted
      cases h
      exact .same hhops hinserted
    · next hthis =>
      rw [if_neg hthis] at hhops
      cases h
      exact .stub _ rfl hhops (proxyhelper_hands _ _ _ rfl)
  · next mpc hclientmpc hservermpc =>
    rw [hclientmpc, hservermpc] at hhops hinserted
    simp only [insertedBetween, hopsBetween] at hhops hinserted
    obtain ⟨-, h⟩ := seq_ok.mp h
    split at h
    · next hthis =>
      rw [if_pos hthis] at hhops hinserted
      cases h
      exact .same hhops hinserted
    · next hthis =>
      rw [if_neg hthis] at hhops
      obtain ⟨others, -, h⟩ := bind_ok.mp h
      cases h
      exact .skeleton _ _ rfl rfl hhops (bc_hands _ _ _ _ _ rfl) (proxyhelper_hands _ _ _ rfl)
  · next mpc mpc' hclientmpc hservermpc =>
    rw [hclientmpc, hservermpc] at hhops hinserted
    cases h
    exact .beside hhops hinserted _ rfl rfl fun h => by cases h
  · next hclientmpc hservermpc =>
    rw [hclientmpc, hservermpc] at hhops hinserted
    simp only [insertedBetween, hopsBetween] at hhops hinserted
    split at h
    · next hasynchronous =>
      rw [if_pos hasynchronous] at hhops
      obtain ⟨-, h⟩ := seq_ok.mp h
      obtain ⟨others, -, h⟩ := bind_ok.mp h
      cases h
      exact .front _ _ rfl hhops (bc_hands _ _ _ _ _ rfl)
    · next hasynchronous =>
      rw [if_neg hasynchronous] at hhops hinserted
      split at h
      · next htrace =>
        rw [if_pos htrace] at hhops
        obtain ⟨-, h⟩ := seq_ok.mp h
        obtain ⟨others, -, h⟩ := bind_ok.mp h
        cases h
        exact .front _ _ rfl hhops (bc_hands _ _ _ _ _ rfl)
      · next htrace =>
        rw [if_neg htrace] at hhops hinserted
        cases h
        exact .same hhops hinserted

theorem Hands.ne_instantiated {c : Component} {hop : Hop} (h : Hands c hop) :
    c.kind ≠ .instantiated := by
  intro hkind
  have hhop := h.hop
  rw [hkind] at hhop
  cases hhop

/-- Nothing of what is inserted is instantiated. -/
theorem Rebinds.ne_instantiated (h : Rebinds composite bind counts nbbc rebound counts' nbbc')
    {c : Component} (hc : c ∈ rebound.ncs) : c.kind ≠ .instantiated := by
  cases h with
  | same => cases hc
  | beside _ _ c' _ _ hkind =>
    rw [List.mem_singleton.mp hc]
    exact hkind
  | stub c' _ _ hhands =>
    rw [List.mem_singleton.mp hc]
    exact hhands.ne_instantiated
  | front c' hop _ _ hhands =>
    rw [List.mem_singleton.mp hc]
    exact hhands.ne_instantiated
  | skeleton event skel _ _ _ hhandsevent hhandsskel =>
    rcases List.mem_cons.mp hc with rfl | hc
    · exact hhandsevent.ne_instantiated
    · rw [List.mem_singleton.mp hc]
      exact hhandsskel.ne_instantiated

theorem inserted_of_hops {hop : Hop} {rest : List Hop} (h : hops composite bind = hop :: rest) :
    inserted composite bind = (hop :: rest).length := by
  rw [← h]
  unfold hops at h
  unfold inserted hops
  generalize (composite.getFcSubComponent bind.from_).bind Place.getMPC = clientmpc at h ⊢
  generalize (composite.getFcSubComponent bind.to_).bind Place.getMPC = servermpc at h ⊢
  unfold insertedBetween
  split
  · cases h
  · rfl

theorem Rebinds.length (h : Rebinds composite bind counts nbbc rebound counts' nbbc') :
    rebound.ncs.length = inserted composite bind := by
  cases h with
  | same _ hinserted => exact hinserted.symm
  | beside _ hinserted => exact hinserted.symm
  | stub c _ hhops => exact (inserted_of_hops hhops).symm
  | front c hop _ hhops => exact (inserted_of_hops hhops).symm
  | skeleton event skel _ _ hhops => exact (inserted_of_hops hhops).symm

end Rebind

section Names
variable {gen : Generators} {composite : Place} {counts counts' : Counts} {nbbc nbbc' : Nat}
  {bind : Bind} {rebound : Rebound}

/-- The names that can still be given. -/
def Unissued (counts : Counts) (nbbc : Nat) (name : String) : Prop :=
  (∃ n ≥ counts.bcNumber, name = label "bc" n) ∨ (∃ n ≥ counts.nbproxy, name = label "p" n) ∨
    ∃ n ≥ nbbc, name = label "v" n

theorem bc_ne_p (n m : Nat) : label "bc" n ≠ label "p" m :=
  @label_ne n m 'b' 'p' ['c'] [] (by decide)

theorem bc_ne_v (n m : Nat) : label "bc" n ≠ label "v" m :=
  @label_ne n m 'b' 'v' ['c'] [] (by decide)

theorem p_ne_v (n m : Nat) : label "p" n ≠ label "v" m :=
  @label_ne n m 'p' 'v' [] [] (by decide)

theorem unissued_bc {n : Nat} : Unissued counts nbbc (label "bc" n) ↔ counts.bcNumber ≤ n := by
  constructor
  · rintro (⟨m, hm, heq⟩ | ⟨m, -, heq⟩ | ⟨m, -, heq⟩)
    · rw [label_inj heq]
      exact hm
    · exact absurd heq (bc_ne_p n m)
    · exact absurd heq (bc_ne_v n m)
  · exact fun h => .inl ⟨n, h, rfl⟩

theorem unissued_p {n : Nat} : Unissued counts nbbc (label "p" n) ↔ counts.nbproxy ≤ n := by
  constructor
  · rintro (⟨m, -, heq⟩ | ⟨m, hm, heq⟩ | ⟨m, -, heq⟩)
    · exact absurd heq.symm (bc_ne_p m n)
    · rw [label_inj heq]
      exact hm
    · exact absurd heq (p_ne_v n m)
  · exact fun h => .inr (.inl ⟨n, h, rfl⟩)

theorem unissued_v {n : Nat} : Unissued counts nbbc (label "v" n) ↔ nbbc ≤ n := by
  constructor
  · rintro (⟨m, -, heq⟩ | ⟨m, -, heq⟩ | ⟨m, hm, heq⟩)
    · exact absurd heq.symm (bc_ne_v m n)
    · exact absurd heq.symm (p_ne_v m n)
    · rw [label_inj heq]
      exact hm
  · exact fun h => .inr (.inr ⟨n, h, rfl⟩)

theorem Unissued.mono {name : String} (h : Unissued counts' nbbc' name)
    (hbc : counts.bcNumber ≤ counts'.bcNumber) (hproxy : counts.nbproxy ≤ counts'.nbproxy)
    (hv : nbbc ≤ nbbc') : Unissued counts nbbc name := by
  rcases h with ⟨n, hn, heq⟩ | ⟨n, hn, heq⟩ | ⟨n, hn, heq⟩
  · exact .inl ⟨n, Nat.le_trans hbc hn, heq⟩
  · exact .inr (.inl ⟨n, Nat.le_trans hproxy hn, heq⟩)
  · exact .inr (.inr ⟨n, Nat.le_trans hv hn, heq⟩)

def Rebound.names (rebound : Rebound) : List String := rebound.ncs.map Component.nameinowner

/-- A name is given once. -/
structure Issues (counts : Counts) (nbbc : Nat) (names : List String) (counts' : Counts)
    (nbbc' : Nat) : Prop where
  nodup : names.Nodup
  unissued : ∀ name ∈ names, Unissued counts nbbc name
  issued : ∀ name ∈ names, ¬ Unissued counts' nbbc' name
  mono : ∀ name, Unissued counts' nbbc' name → Unissued counts nbbc name

theorem Issues.single {name : String} (hunissued : Unissued counts nbbc name)
    (hissued : ¬ Unissued counts' nbbc' name)
    (hmono : ∀ name, Unissued counts' nbbc' name → Unissued counts nbbc name) :
    Issues counts nbbc [name] counts' nbbc' := by
  refine ⟨List.nodup_singleton _, ?_, ?_, hmono⟩
  · intro name' hname'
    rw [List.mem_singleton.mp hname']
    exact hunissued
  · intro name' hname'
    rw [List.mem_singleton.mp hname']
    exact hissued

theorem Rebinds.issues (h : Rebinds composite bind counts nbbc rebound counts' nbbc') :
    Issues counts nbbc rebound.names counts' nbbc' := by
  cases h with
  | same => exact ⟨.nil, (fun _ h => nomatch h), (fun _ h => nomatch h), fun _ h => h⟩
  | beside _ _ c hname =>
    have hnames : Rebound.names ⟨bind, [], [c]⟩ = [label "v" nbbc] := congrArg (fun n => [n]) hname
    rw [hnames]
    refine .single (unissued_v.mpr le_rfl) ?_ fun _ h => h.mono le_rfl le_rfl (Nat.le_succ _)
    rw [unissued_v]
    exact Nat.not_succ_le_self nbbc
  | stub c hname =>
    have hnames : Rebound.names (inFront bind c) = [label "p" counts.nbproxy] :=
      congrArg (fun n => [n]) hname
    rw [hnames]
    refine .single (unissued_p.mpr le_rfl) ?_ fun _ h => h.mono le_rfl (Nat.le_succ _) le_rfl
    rw [unissued_p]
    exact Nat.not_succ_le_self counts.nbproxy
  | front c hop hname =>
    have hnames : Rebound.names (inFront bind c) = [label "bc" counts.bcNumber] :=
      congrArg (fun n => [n]) hname
    rw [hnames]
    refine .single (unissued_bc.mpr le_rfl) ?_ fun _ h => h.mono (Nat.le_succ _) le_rfl le_rfl
    rw [unissued_bc]
    exact Nat.not_succ_le_self counts.bcNumber
  | skeleton event skel hevent hskel =>
    have hnames : Rebound.names (behindSkeleton bind event skel) =
        [label "bc" counts.bcNumber, label "p" counts.nbproxy] := by
      rw [← hevent, ← hskel]
      rfl
    rw [hnames]
    refine ⟨?_, ?_, ?_, fun _ h => h.mono (Nat.le_succ _) (Nat.le_succ _) le_rfl⟩
    · exact List.nodup_cons.mpr ⟨fun hmem => bc_ne_p _ _ (List.mem_singleton.mp hmem),
        List.nodup_singleton _⟩
    · intro name hmem
      rcases List.mem_cons.mp hmem with rfl | hmem
      · exact unissued_bc.mpr le_rfl
      · rw [List.mem_singleton.mp hmem]
        exact unissued_p.mpr le_rfl
    · intro name hmem
      rcases List.mem_cons.mp hmem with rfl | hmem
      · rw [unissued_bc]
        exact Nat.not_succ_le_self counts.bcNumber
      · rw [List.mem_singleton.mp hmem, unissued_p]
        exact Nat.not_succ_le_self counts.nbproxy

/-- The binds of a composite one after the other. -/
theorem rebindAll_ok {binds : List Bind} {rebounds : List Rebound}
    (h : rebindAll gen composite counts nbbc binds = .ok (rebounds, counts')) :
    List.Forall₂ (fun bind rebound => ∃ counts nbbc counts' nbbc',
        Rebinds composite bind counts nbbc rebound counts' nbbc') binds rebounds ∧
      (rebounds.flatMap Rebound.names).Nodup ∧
      ∀ name ∈ rebounds.flatMap Rebound.names, Unissued counts nbbc name := by
  induction binds generalizing counts nbbc rebounds with
  | nil =>
    cases h
    exact ⟨.nil, .nil, fun _ h => nomatch h⟩
  | cons bind binds ih =>
    unfold rebindAll at h
    obtain ⟨⟨rebound, counts₁, nbbc₁⟩, hfirst, h⟩ := bind_ok.mp h
    obtain ⟨⟨rest, counts₂⟩, hrest, h⟩ := bind_ok.mp h
    cases h
    have hrebinds := rebind_cases hfirst
    have hissues := hrebinds.issues
    obtain ⟨hall, hnodup, hunissued⟩ := ih hrest
    refine ⟨.cons ⟨_, _, _, _, hrebinds⟩ hall, ?_, ?_⟩
    · rw [List.flatMap_cons]
      refine List.Nodup.append hissues.nodup hnodup fun name hname hname' => ?_
      exact hissues.issued name hname (hunissued name hname')
    · intro name hname
      rw [List.flatMap_cons, List.mem_append] at hname
      rcases hname with hname | hname
      · exact hissues.unissued name hname
      · exact hissues.mono name (hunissued name hname)

end Names

section Keys
variable {composite : Place} {binds : List Bind} {rebounds : List Rebound}

/-- The client interface that a bind is for. -/
def Bind.client (bind : Bind) : String × ItfName := (bind.from_, bind.fromitf)

theorem bindOf_eq (binds : List Bind) (from_ : String) (fromitf : ItfName) :
    bindOf binds from_ fromitf = binds.find? fun sb => sb.client = (from_, fromitf) := by
  unfold bindOf Bind.client
  congr 1
  funext sb
  simp only [Prod.mk.injEq]

theorem bindOf_of_mem (h : (binds.map Bind.client).Nodup) {bind : Bind} (hbind : bind ∈ binds) :
    bindOf binds bind.from_ bind.fromitf = some bind := by
  rw [bindOf_eq]
  exact find_of_mem h hbind

theorem bindOf_none {from_ : String} {fromitf : ItfName}
    (h : (from_, fromitf) ∉ binds.map Bind.client) : bindOf binds from_ fromitf = none := by
  rw [bindOf_eq]
  exact find_of_not_mem h

theorem mem_of_bindOf_none {from_ : String} {fromitf : ItfName}
    (h : bindOf binds from_ fromitf = none) : (from_, fromitf) ∉ binds.map Bind.client := by
  intro hmem
  obtain ⟨bind, hbind, heq⟩ := List.mem_map.mp hmem
  rw [bindOf_eq] at h
  exact List.find?_eq_none.mp h bind hbind (decide_eq_true heq)

/-- The client interfaces that are bound anew: those of what is passed through. -/
def freshOf (c : Component) : Option (String × ItfName) :=
  if c.kind.hop.isSome then some (c.nameinowner, target) else none

def Rebound.fresh (rebound : Rebound) : List (String × ItfName) := rebound.ncs.filterMap freshOf

theorem Rebinds.clients {bind : Bind} {rebound : Rebound} {counts counts' : Counts}
    {nbbc nbbc' : Nat} (h : Rebinds composite bind counts nbbc rebound counts' nbbc') :
    ((rebound.bind :: rebound.newb).map Bind.client).Perm (bind.client :: rebound.fresh) := by
  cases h with
  | same => exact .refl _
  | beside _ _ c _ hhop =>
    have hfresh : Rebound.fresh ⟨bind, [], [c]⟩ = [] := by
      simp [Rebound.fresh, freshOf, hhop]
    rw [hfresh]
    exact .refl _
  | stub c _ _ hhands =>
    have hfresh : Rebound.fresh (inFront bind c) = [(c.nameinowner, target)] := by
      simp [Rebound.fresh, freshOf, inFront, hhands.hop]
    rw [hfresh]
    exact .swap ..
  | front c hop _ _ hhands =>
    have hfresh : Rebound.fresh (inFront bind c) = [(c.nameinowner, target)] := by
      simp [Rebound.fresh, freshOf, inFront, hhands.hop]
    rw [hfresh]
    exact .swap ..
  | skeleton event skel _ _ _ hevent hskel =>
    have hfresh : Rebound.fresh (behindSkeleton bind event skel) =
        [(event.nameinowner, target), (skel.nameinowner, target)] := by
      simp [Rebound.fresh, freshOf, behindSkeleton, hevent.hop, hskel.hop]
    rw [hfresh]
    exact .refl _

/-- The binds of a rebound composite have the client interfaces of before and the fresh ones. -/
theorem reboundBinds_clients (h : List.Forall₂ (fun bind rebound => ∃ counts nbbc counts' nbbc',
    Rebinds composite bind counts nbbc rebound counts' nbbc') binds rebounds) :
    ((reboundBinds rebounds).map Bind.client).Perm
      (binds.map Bind.client ++ rebounds.flatMap Rebound.fresh) := by
  have hside : (reboundBinds rebounds).Perm (rebounds.flatMap fun r => r.bind :: r.newb) :=
    map_append_flatMap_perm Rebound.bind Rebound.newb rebounds
  refine (hside.map Bind.client).trans ?_
  induction h with
  | nil => exact .refl _
  | @cons bind rebound binds rebounds hfirst _ ih =>
    obtain ⟨counts, nbbc, counts', nbbc', hfirst⟩ := hfirst
    rw [List.flatMap_cons, List.map_append, List.map_cons, List.flatMap_cons]
    refine (hfirst.clients.append (ih (map_append_flatMap_perm ..))).trans ?_
    rw [List.cons_append, List.map_cons, List.cons_append]
    refine .cons _ ?_
    rw [← List.append_assoc, ← List.append_assoc]
    exact List.perm_append_comm.append_right _

theorem fresh_names {rebounds : List Rebound} {client : String × ItfName}
    (h : client ∈ rebounds.flatMap Rebound.fresh) :
    client.1 ∈ rebounds.flatMap Rebound.names := by
  obtain ⟨rebound, hrebound, hmem⟩ := List.mem_flatMap.mp h
  obtain ⟨c, hc, hclient⟩ := List.mem_filterMap.mp hmem
  unfold freshOf at hclient
  split at hclient
  · cases hclient
    exact List.mem_flatMap.mpr ⟨rebound, hrebound, List.mem_map_of_mem hc⟩
  · cases hclient

theorem fresh_sublist (ncs : List Component) :
    ((ncs.filterMap freshOf).map Prod.fst).Sublist (ncs.map Component.nameinowner) := by
  induction ncs with
  | nil => exact .slnil
  | cons c ncs ih =>
    by_cases hhop : c.kind.hop.isSome = true
    · have hfresh : freshOf c = some (c.nameinowner, target) := if_pos hhop
      rw [List.filterMap_cons_some hfresh, List.map_cons, List.map_cons]
      exact ih.cons_cons _
    · have hfresh : freshOf c = none := if_neg hhop
      rw [List.filterMap_cons_none hfresh, List.map_cons]
      exact ih.cons _

theorem fresh_nodup {rebounds : List Rebound} (h : (rebounds.flatMap Rebound.names).Nodup) :
    (rebounds.flatMap Rebound.fresh).Nodup := by
  refine List.Nodup.of_map Prod.fst (List.Nodup.sublist ?_ h)
  induction rebounds with
  | nil => exact .slnil
  | cons rebound rebounds ih =>
    rw [List.flatMap_cons, List.map_append, List.flatMap_cons]
    rw [List.flatMap_cons] at h
    exact (fresh_sublist rebound.ncs).append (ih h.of_append_right)

end Keys

end Codinalte.Graph
