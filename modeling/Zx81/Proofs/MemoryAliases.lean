import Mathlib.Data.List.Induction
import Zx81.Machine.Memory

namespace Zx81.Memory

section Map

variable (m : Memory) (a : UInt16)

theorem foldRam_le : m.foldRam a ≤ m.ramTop := by
  unfold foldRam
  split
  case isTrue => exact UInt16.and_le_right
  case isFalse hbelow => exact UInt16.not_lt.mp hbelow

theorem foldRam_of_le (h : a ≤ m.ramTop) : m.foldRam a = a := if_neg (UInt16.not_lt.mpr h)

theorem foldRom_le : m.foldRom a ≤ a := by
  unfold foldRom
  split
  case isTrue => exact UInt16.and_le_left
  case isFalse => exact UInt16.le_refl a

/-- The ROM that repeats is not repeated again. -/
theorem foldRom_foldRom : m.foldRom (m.foldRom a) = m.foldRom a := by
  by_cases hrepeat : m.shadowRom ∧ m.romTop < a ∧ a ≤ shadowEnd
  · have hfolded : m.foldRom a = a &&& m.romTop := if_pos hrepeat
    have hinside : a &&& m.romTop ≤ m.romTop := UInt16.and_le_right
    rw [hfolded]
    exact if_neg fun h => UInt16.not_lt.mpr hinside h.2.1
  · have hkept : m.foldRom a = a := if_neg hrepeat
    rw [hkept, hkept]

theorem decode_le_ramTop : m.decode a ≤ m.ramTop :=
  UInt16.le_trans (m.foldRom_le (m.foldRam a)) (m.foldRam_le a)

/-- A cell is reached by its own number. -/
theorem decode_decode : m.decode (m.decode a) = m.decode a := by
  have hram : m.foldRam (m.decode a) = m.decode a := m.foldRam_of_le _ (m.decode_le_ramTop a)
  rw [decode, hram]
  exact m.foldRom_foldRom (m.foldRam a)

end Map

def writeAll (m : Memory) (writes : List (UInt16 × UInt8)) : Memory :=
  writes.foldl (fun m w => m.write w.1 w.2) m

/-- A write to `a` is seen at `b`: both reach one cell, which lies above the ROM or in a ROM that is
not protected. -/
def SeenAt (m : Memory) (b a : UInt16) : Prop :=
  m.decode a = m.decode b ∧ (m.romTop < m.decode a ∨ m.protectRom = false)

instance (m : Memory) (b a : UInt16) : Decidable (m.SeenAt b a) :=
  inferInstanceAs (Decidable (_ ∧ _))

/-- The last byte written that is seen at `b`. -/
def lastSeen? (m : Memory) (b : UInt16) (writes : List (UInt16 × UInt8)) : Option UInt8 :=
  (writes.filter fun w => m.SeenAt b w.1).getLast?.map Prod.snd

section Writes

variable (m : Memory) (writes : List (UInt16 × UInt8)) (b : UInt16)

theorem seenAt_iff (a : UInt16) :
    m.SeenAt b a ↔ m.decode a = m.decode b ∧ m.isProtected (m.decode a) = false := by
  have hprotected : m.isProtected (m.decode a) = false ↔
      m.romTop < m.decode a ∨ m.protectRom = false := by
    simp [isProtected, or_comm, Decidable.imp_iff_not_or]
  rw [SeenAt, hprotected]

theorem lastSeen?_concat (w : UInt16 × UInt8) :
    m.lastSeen? b (writes ++ [w]) = if m.SeenAt b w.1 then some w.2 else m.lastSeen? b writes := by
  by_cases h : m.SeenAt b w.1 <;> simp [lastSeen?, List.filter_append, h]

theorem writeAll_concat (w : UInt16 × UInt8) :
    m.writeAll (writes ++ [w]) = (m.writeAll writes).write w.1 w.2 := by
  simp [writeAll]

/-- Writes leave the address map and the protection alone. -/
theorem map_writeAll (a : UInt16) : (m.writeAll writes).decode a = m.decode a ∧
    (m.writeAll writes).isProtected a = m.isProtected a := by
  induction writes generalizing m with
  | nil => exact ⟨rfl, rfl⟩
  | cons w writes ih =>
    obtain ⟨hdecode, hprotected⟩ := ih (m.write w.1 w.2)
    exact ⟨hdecode.trans (m.decode_write w.1 a w.2),
      hprotected.trans (m.isProtected_write w.1 a w.2)⟩

theorem read_writeAll :
    (m.writeAll writes).read b = (m.lastSeen? b writes).getD (m.ram.get (m.decode b)) := by
  induction writes using List.reverseRecOn with
  | nil => rfl
  | append_singleton writes w ih =>
    have hwrite := (m.writeAll writes).read_write w.1 b w.2
    simp only [map_writeAll, ← seenAt_iff] at hwrite
    rw [writeAll_concat, hwrite, lastSeen?_concat, ih]
    split
    · rfl
    · rfl

end Writes

theorem ramTop_loads (m : Memory) (loads : List (UInt16 × List UInt8)) :
    (loads.foldl (fun m l => m.load l.1 l.2) m).ramTop = m.ramTop := by
  induction loads generalizing m with
  | nil => rfl
  | cons l loads ih => exact ih (m.load l.1 l.2)

end Zx81.Memory
