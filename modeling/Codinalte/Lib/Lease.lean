import Codinalte.Lib.Machine

/-! A holder of one address at a time: it takes an address, and later gives it back or, where that
fails, loses it. -/

namespace Codinalte.Lease
open Codinalte.Machine
variable {α : Type*} [DecidableEq α]

inductive LeaseCall (α : Type*) where
  | take (address : α)
  | giveBack (address : α)
  | lose (address : α)
deriving DecidableEq

/-- Only a free holder takes an address, and it gives back the one it holds. -/
def step : Option α → LeaseCall α → Option (Option α)
  | none, .take address => some (some address)
  | some held, .giveBack address => if held = address then some none else none
  | some held, .lose address => if held = address then some none else none
  | _, _ => none

theorem run_take {calls : List (LeaseCall α)} {address : α}
    (h : run step none calls = some none) :
    run step none (calls ++ [.take address]) = some (some address) :=
  run_snoc h rfl

theorem run_give_back {calls : List (LeaseCall α)} {address : α}
    (h : run step none calls = some (some address)) :
    run step none (calls ++ [.giveBack address]) = some none :=
  run_snoc h (if_pos rfl)

theorem run_lose {calls : List (LeaseCall α)} {address : α}
    (h : run step none calls = some (some address)) :
    run step none (calls ++ [.lose address]) = some none :=
  run_snoc h (if_pos rfl)

/-- How often an address is held. -/
def holding (held : Option α) (address : α) : Nat := if held = some address then 1 else 0

theorem step_balance {held held' : Option α} {call : LeaseCall α} (h : step held call = some held')
    (address : α) : holding held address + [call].count (.take address) =
      [call].count (.giveBack address) + [call].count (.lose address) + holding held' address := by
  cases held with
  | none =>
    cases call with
    | take taken =>
      cases h
      simp [holding, List.count_singleton]
    | giveBack | lose => cases h
  | some current =>
    cases call with
    | take => cases h
    | giveBack given =>
      obtain ⟨rfl, heq⟩ := Option.ite_none_right_eq_some.mp h
      cases heq
      simp [holding, List.count_singleton]
    | lose lost =>
      obtain ⟨rfl, heq⟩ := Option.ite_none_right_eq_some.mp h
      cases heq
      simp [holding, List.count_singleton]

/-- Every taken address has been given back, lost, or is the one that is held. -/
theorem run_balance {held held' : Option α} {calls : List (LeaseCall α)}
    (h : run step held calls = some held') (address : α) :
    holding held address + calls.count (.take address) =
      calls.count (.giveBack address) + calls.count (.lose address) + holding held' address := by
  induction calls generalizing held with
  | nil =>
    cases h
    simp
  | cons call calls ih =>
    obtain ⟨next, hstep, hrun⟩ := run_cons_eq_some.mp h
    have hfirst := step_balance hstep address
    have hrest := ih hrun
    rw [← List.singleton_append, List.count_append, List.count_append, List.count_append]
    omega

end Codinalte.Lease
