import Minos.Arch.Stage2Map
import Minos.Virt.VmmArea

/-!
# Guest mappings

`create_guest_mapping` widens its range to whole pages before it hands it to the stage-2 tables.
Whatever it returns, a first part of the pages is mapped and nothing else has changed, so what
becomes reachable lies in the physical range (`archGuestMap_reaches`).
-/

namespace Minos.Vmm

open Minos.Lib
open Minos.Stage2 (Tables Entry PageSource TablesOk translate translate_eq_some archGuestMap)

/-- `PAGE_ALIGN`. -/
def pageAlign (a : Nat) : Nat := a / pageSize * pageSize

/-- Where the last page of a range ends. -/
def pageEnd (vir size : Nat) : Nat := pageBalign (u64 (vir + size))

/-- `__create_guest_mapping`. -/
def createGuestMapping (src : PageSource) (s : Tables) (vir phy size : Nat) (flags : Entry) :
    Option Stage2.Ret :=
  let size := sub64 (pageEnd vir size) (pageAlign vir)
  archGuestMap src s (pageAlign vir) (u64 (pageAlign vir + size)) (pageAlign phy) flags

/-- The tables lead some address to the physical address `x`. -/
def Reaches (s : Tables) (x : Nat) : Prop := ∃ ipa l, translate s ipa = some l ∧ l.pa = x

variable {src : PageSource} {s : Tables} {vir phy size : Nat} {flags : Entry} {r : Stage2.Ret}

theorem pageAlign_le (a : Nat) : pageAlign a ≤ a := Nat.div_mul_le_self a _

theorem pageAlign_mod (a : Nat) : pageAlign a % Stage2.pageSize = 0 := Nat.mul_mod_left ..

theorem pageEnd_eq (h : vir + size + 4095 < 2 ^ 64) :
    pageEnd vir size = (vir + size + 4095) / pageSize * pageSize := by
  have hlt : vir + size < 2 ^ 64 := by omega
  rw [pageEnd, u64_of_lt hlt, pageBalign_eq (by simp only [pageSize]; omega)]
  rfl

theorem pageEnd_mod (h : vir + size + 4095 < 2 ^ 64) : pageEnd vir size % Stage2.pageSize = 0 := by
  rw [pageEnd_eq h]
  exact Nat.mul_mod_left ..

theorem pageAlign_le_pageEnd (h : vir + size + 4095 < 2 ^ 64) :
    pageAlign vir ≤ pageEnd vir size := by
  have := pageAlign_le vir
  rw [pageEnd_eq h, pageSize]
  omega

theorem createGuestMapping_eq (h : vir + size + 4095 < 2 ^ 64) :
    createGuestMapping src s vir phy size flags =
      archGuestMap src s (pageAlign vir) (pageEnd vir size) (pageAlign phy) flags := by
  have hle := pageAlign_le_pageEnd h
  have hlt : pageEnd vir size < 2 ^ 64 := by
    rw [pageEnd_eq h, pageSize]
    omega
  rw [createGuestMapping, sub64_of_le hle hlt, Nat.add_sub_cancel' hle, u64_of_lt hlt]

/-- What a map adds to the reach of the tables lies in its physical range. -/
theorem archGuestMap_reaches {start stop physical x : Nat} (hs : TablesOk src s)
    (h : archGuestMap src s start stop physical flags = some r) (hle : start ≤ stop)
    (hx : Reaches r.2 x) : Reaches s x ∨ physical ≤ x ∧ x < physical + (stop - start) := by
  obtain ⟨ipa, l, hl, rfl⟩ := hx
  rcases Nat.eq_or_lt_of_le hle with rfl | hlt
  · -- an empty range is refused
    rw [archGuestMap, if_pos rfl] at h
    cases h
    exact Or.inl ⟨ipa, l, hl, rfl⟩
  · obtain ⟨last, h1, h2, hmaps, -⟩ := Stage2.archGuestMap_till hs hlt h
    by_cases hin : start ≤ ipa ∧ ipa < last
    · obtain ⟨l', hwalk, hpa, -⟩ := hmaps.inside ipa hin.1 hin.2
      rw [translate_eq_some, hwalk] at hl
      cases hl.1
      exact Or.inr (by omega)
    · left
      rw [translate_eq_some, hmaps.outside ipa hin, ← translate_eq_some] at hl
      exact ⟨ipa, l, hl, rfl⟩

end Minos.Vmm
