import Mathlib.Order.Interval.Finset.Nat
import Mathlib.Data.List.Range

/-! A ring of `n` slots. Positions count up without end and position `p` lies in slot `p % n`;
the window from `R` to `W` holds what is written and not read. -/

namespace Codinalte.Ring
variable {E : Type*} {n R W : ℕ}

/-- The distance of two positions read off their slots. -/
theorem count_mod (hle : R ≤ W) (hlt : W - R < n) :
    (if R % n ≤ W % n then W % n - R % n else n - R % n + W % n) = W - R := by
  have hn : 0 < n := by omega
  have hr : R % n < n := Nat.mod_lt R hn
  have hw : W % n < n := Nat.mod_lt W hn
  have hsum : W % n = (R % n + (W - R)) % n := by
    rw [Nat.mod_add_mod]
    congr 1
    omega
  by_cases hwrap : R % n + (W - R) < n
  · rw [Nat.mod_eq_of_lt hwrap] at hsum
    rw [if_pos (by omega)]
    omega
  · have hmod : (R % n + (W - R)) % n = R % n + (W - R) - n := by
      rw [Nat.mod_eq_sub_mod (by omega), Nat.mod_eq_of_lt (by omega)]
    rw [hmod] at hsum
    rw [if_neg (by omega)]
    omega

theorem next_mod (hn : 0 < n) : (if R % n + 1 = n then 0 else R % n + 1) = (R + 1) % n := by
  have hr : R % n < n := Nat.mod_lt R hn
  have hsum : (R + 1) % n = (R % n + 1) % n := by rw [Nat.mod_add_mod]
  rw [hsum]
  by_cases hwrap : R % n + 1 = n
  · rw [if_pos hwrap, hwrap, Nat.mod_self]
  · have hlt : R % n + 1 < n := by omega
    rw [if_neg hwrap, Nat.mod_eq_of_lt hlt]

/-- The slots from position `R` up to `W`. -/
def window (n R W : ℕ) : List ℕ := (List.range' R (W - R)).map (· % n)

theorem mem_window {slot : ℕ} : slot ∈ window n R W ↔ ∃ p, R ≤ p ∧ p < W ∧ p % n = slot := by
  simp only [window, List.mem_map, List.mem_range'_1]
  constructor
  · rintro ⟨p, hp, rfl⟩
    exact ⟨p, by omega, by omega, rfl⟩
  · rintro ⟨p, hle, hlt, rfl⟩
    exact ⟨p, by omega, rfl⟩

theorem first_mem_window (hlt : R < W) : R % n ∈ window n R W :=
  mem_window.mpr ⟨R, le_refl R, hlt, rfl⟩

/-- The next slot to write lies outside as long as the ring is not full. -/
theorem next_notMem_window (hle : R ≤ W) (hlt : W - R < n) : W % n ∉ window n R W := by
  intro hmem
  obtain ⟨p, hp, hpW, hslot⟩ := mem_window.mp hmem
  have hinj := Nat.mod_injOn_Ico R n
  have hin : ∀ q, R ≤ q → q ≤ W → q ∈ (Finset.Ico R (R + n) : Set ℕ) := by
    intro q hq hqW
    rw [Finset.coe_Ico]
    exact ⟨hq, by omega⟩
  have heq : p = W := hinj (hin p hp hpW.le) (hin W hle le_rfl) hslot
  omega

theorem window_snoc (hle : R ≤ W) : window n R (W + 1) = window n R W ++ [W % n] := by
  have hlen : W + 1 - R = (W - R) + 1 := by omega
  have hlast : R + (W - R) = W := by omega
  rw [window, window, hlen, List.range'_1_concat, List.map_append, hlast]
  rfl

theorem window_cons (hlt : R < W) : window n R W = R % n :: window n (R + 1) W := by
  have hlen : W - R = (W - (R + 1)) + 1 := by omega
  rw [window, window, hlen, List.range'_succ, List.map_cons]

theorem window_length : (window n R W).length = W - R := by
  rw [window, List.length_map, List.length_range']

/-- What the window holds, oldest first. -/
def contents (slots : ℕ → E) (n R W : ℕ) : List E := (window n R W).map slots

theorem contents_length (slots : ℕ → E) : (contents slots n R W).length = W - R := by
  rw [contents, List.length_map, window_length]

theorem contents_snoc (slots : ℕ → E) (hle : R ≤ W) :
    contents slots n R (W + 1) = contents slots n R W ++ [slots (W % n)] := by
  rw [contents, window_snoc hle, List.map_append]
  rfl

theorem contents_cons (slots : ℕ → E) (hlt : R < W) :
    contents slots n R W = slots (R % n) :: contents slots n (R + 1) W := by
  rw [contents, window_cons hlt, List.map_cons]
  rfl

theorem contents_update (slots : ℕ → E) {slot : ℕ} (v : E) (h : slot ∉ window n R W) :
    contents (Function.update slots slot v) n R W = contents slots n R W := by
  apply List.map_congr_left
  intro other hother
  apply Function.update_of_ne
  intro heq
  exact h (heq ▸ hother)

end Codinalte.Ring
