import Zx81.Proofs.LoopInvariant

namespace Zx81

open Video (Scanline)
open Z80 (BusCycle Cpu Request)

namespace Memory

/-- The same address map, and the same byte in every protected cell. -/
structure RomKept (m m' : Memory) : Prop where
  decode : ∀ a, m'.decode a = m.decode a
  isProtected : ∀ cell, m'.isProtected cell = m.isProtected cell
  cells : ∀ cell, m.isProtected cell → m'.ram.get cell = m.ram.get cell

namespace RomKept

theorem refl (m : Memory) : RomKept m m := ⟨fun _ => rfl, fun _ => rfl, fun _ _ => rfl⟩

theorem trans {m₁ m₂ m₃ : Memory} (h : RomKept m₁ m₂) (h' : RomKept m₂ m₃) : RomKept m₁ m₃ := by
  constructor
  · intro a
    rw [h'.decode, h.decode]
  · intro cell
    rw [h'.isProtected, h.isProtected]
  · intro cell hcell
    have hstill : m₂.isProtected cell := by rwa [h.isProtected]
    rw [h'.cells cell hstill, h.cells cell hcell]

theorem of_eq {m m' : Memory} (h : m' = m) : RomKept m m' := h ▸ refl m

theorem write (m : Memory) (a : UInt16) (v : UInt8) : RomKept m (m.write a v) := by
  refine ⟨fun b => m.decode_write a b v, fun cell => m.isProtected_write a cell v, ?_⟩
  intro cell hcell
  by_cases hprotected : m.isProtected (m.decode a)
  · have hdropped : m.write a v = m := if_pos hprotected
    rw [hdropped]
  · have hstored : m.write a v = m.mapRam (·.set (m.decode a) v) := if_neg hprotected
    have hother : m.decode a ≠ cell := fun h => hprotected (h ▸ hcell)
    rw [hstored]
    change (m.ram.set (m.decode a) v).get cell = m.ram.get cell
    rw [Ram.get_set, if_neg hother]

end RomKept
end Memory

open Memory (RomKept)

namespace Board

theorem romKept_write (a : UInt16) (v : UInt8) (b : Board) :
    RomKept b.memory (write a v b).memory := by
  unfold write
  simp only
  split
  · split
    · exact .refl b.memory
    · exact .write b.memory a v
  · exact .write b.memory a v

theorem memory_fetch (b : Board) (a refresh : UInt16) :
    (b.fetch a refresh).2.memory = b.memory := by
  unfold fetch fetchDisplay
  simp only
  split
  · split
    · rfl
    · rfl
  · rfl

theorem memory_input (b : Board) (port : UInt16) : (b.input port).2.memory = b.memory := by
  unfold input
  split
  · rfl
  · rfl

theorem romKept_cycle (c : BusCycle) (s : Nat × Board) :
    RomKept s.2.memory (c.run s).2.2.memory := by
  cases c with
  | fetch a refresh => exact .of_eq (s.2.memory_fetch a refresh)
  | read a => exact .refl _
  | write a v => exact romKept_write a v s.2
  | input port => exact .of_eq (s.2.memory_input port)
  | output port v => exact .refl _
  | internal a => exact .refl _

end Board

theorem Z80.Request.romKept (q : Request) (cpu : Cpu) (b : Board) :
    RomKept b.memory (q.run cpu b).bus.memory := by
  refine q.invariant (P := fun b' : Board => RomKept b.memory b'.memory) ?_ cpu (.refl b.memory)
  intro c t b' h
  exact h.trans (Board.romKept_cycle c (t, b'))

/-- A program from a tape is stored like any other bytes. -/
theorem LoadEntry.romKept_store (m : Memory) (a : UInt16) (bytes : List UInt8) :
    RomKept m (store m a bytes) := by
  induction bytes generalizing m a with
  | nil => exact .refl m
  | cons v bytes ih => exact (RomKept.write m a v).trans (ih (m.write a v) (a + 1))

theorem Loading.romKept_run (l : Loading) : RomKept l.memory l.run.2.memory := by
  obtain ⟨cpu, memory, tape⟩ := l
  simp only [run]
  split
  · exact LoadEntry.romKept_store _ _ _
  · exact .refl memory

namespace Engine

/-- Protected ROM is kept from one state of the machine to another. -/
def RomKept (e e' : Engine) : Prop := Memory.RomKept e.board.memory e'.board.memory

theorem romKept_load (e : Engine) : RomKept e e.load :=
  (Loading.mk e.cpu e.board.memory e.tape).romKept_run

theorem stable_romKept (e : Engine) : Stable (RomKept e) where
  load h := h.trans (romKept_load _)
  request q h := h.trans (q.romKept _ _)
  congr h _ hmemory _ _ _ := h.trans (.of_eq hmemory)

end Engine

namespace Machine

def RomKept (m m' : Machine) : Prop := Engine.RomKept m.engine m'.engine

/-- What a host can do with a machine short of loading its memory. -/
inductive Action where
  | runLine
  | runFrame
  /-- A line is run on a buffer of the host's own. -/
  | scanOnto (line : Scanline)
  | reset
  | setKey (key : Key) (pressed : Bool)
  | setSchedule (schedule : Schedule)
  | setStopped (stopped : Bool)
  | insertTape (tape : Tape)
  | setRegisters (regs : Z80.Registers)
  /-- A cycle on the bus of the machine, as the processor makes them. -/
  | access (c : BusCycle)

def perform (m : Machine) : Action → Machine
  | .runLine => m.runLine.2
  | .runFrame => m.runFrame.2
  | .scanOnto line => (m.scanOnto line).2.1
  | .reset => m.reset
  | .setKey key pressed => m.setKey key pressed
  | .setSchedule schedule => { m with schedule }
  | .setStopped stopped => m.setStopped stopped
  | .insertTape tape => m.insertTape tape
  | .setRegisters regs =>
    m.mapEngine fun e => { e with cpu := { e.cpu with regs } }
  | .access c => m.mapEngine (·.mapBoard fun b => (c.run (0, b)).2.2)

theorem romKept_perform (m : Machine) (action : Action) : RomKept m (m.perform action) := by
  have hstable := m.engine.stable_romKept
  have hbefore : Engine.RomKept m.engine m.engine := .refl _
  cases action with
  | runLine => exact runLine_of_stable hstable hbefore
  | runFrame => exact runLines_of_stable hstable hbefore _
  | scanOnto line => exact scanOnto_of_stable hstable hbefore line
  | access c => exact Board.romKept_cycle c (0, m.engine.board)
  | reset => exact .refl _
  | setKey key pressed => exact .refl _
  | setSchedule schedule => exact .refl _
  | setStopped stopped => exact .refl _
  | insertTape tape => exact .refl _
  | setRegisters regs => exact .refl _

theorem romKept_performAll (m : Machine) (actions : List Action) :
    RomKept m (actions.foldl perform m) := by
  induction actions generalizing m with
  | nil => exact .refl _
  | cons action actions ih => exact (m.romKept_perform action).trans (ih (m.perform action))

/-- A machine of a configuration whose memory has been loaded. -/
structure Holds (c : Config) (ram : Ram) (m : Machine) : Prop where
  config : m.config = c
  memory : m.engine.board.memory = { Memory.ofConfig c with ram }

theorem Holds.of_new {c : Config} {m : Machine} (h : new c = .ok m) : Holds c .zero m := by
  rw [eq_ofConfig_of_new h]
  exact ⟨rfl, rfl⟩

theorem Holds.load {c : Config} {ram : Ram} {m : Machine} (h : Holds c ram m) (a : UInt16)
    (bytes : List UInt8) : Holds c (ram.load a bytes) (m.load a bytes) := by
  refine ⟨h.config, ?_⟩
  change m.engine.board.memory.load a bytes = _
  rw [h.memory]
  rfl

section Config

variable {c : Config} (hrunnable : c.Runnable) (ram : Ram)

include hrunnable

/-- An address in ROM is not folded. -/
theorem decode_rom {a : UInt16} (ha : a ≤ c.romTop) :
    ({ Memory.ofConfig c with ram } : Memory).decode a = a := by
  have hbelow : ¬c.ramTop < a := UInt16.not_lt.mpr (UInt16.le_of_lt (UInt16.lt_of_le_of_lt ha
    hrunnable.ram))
  have hinside : ¬c.romTop < a := UInt16.not_lt.mpr ha
  simp [Memory.decode, Memory.foldRam, Memory.foldRom, Memory.ofConfig, hbelow, hinside]

omit hrunnable in
/-- An address in the repeated ROM is folded onto the ROM. -/
theorem decode_shadow (hshadow : c.shadowRom) {a : UInt16} (habove : c.romTop < a)
    (hend : a ≤ Memory.shadowEnd) (hram : a ≤ c.ramTop) :
    ({ Memory.ofConfig c with ram } : Memory).decode a = a &&& c.romTop := by
  have hbelow : ¬c.ramTop < a := UInt16.not_lt.mpr hram
  simp [Memory.decode, Memory.foldRam, Memory.foldRom, Memory.ofConfig, hbelow, habove, hend,
    hshadow]

end Config

/-- Protected ROM is immutable. Whatever is run on a machine that has been loaded, and whatever
keys, tapes, resets and bus accesses come in between, every cell of the ROM keeps its byte. An
address in the ROM reads that byte, and one in the repeated ROM the byte it is folded onto. -/
theorem protected_rom_kept {c : Config} {ram : Ram} {m : Machine} (hvalid : c.fault? = none)
    (hprotect : c.protectRom) (hm : Holds c ram m) (actions : List Action) :
    let board := (actions.foldl perform m).engine.board
    (∀ cell ≤ c.romTop, board.memory.ram.get cell = ram.get cell) ∧
      (∀ a ≤ c.romTop, (Bus.read a board).1 = ram.get a) ∧
      (c.shadowRom → ∀ a, c.romTop < a → a ≤ 0x3FFF → a ≤ c.ramTop →
        (Bus.read a board).1 = ram.get (a &&& c.romTop)) := by
  intro board
  have hrunnable := (Config.fault?_eq_none_iff c).mp hvalid
  have hkept : Memory.RomKept { Memory.ofConfig c with ram } board.memory := by
    rw [← hm.memory]
    exact m.romKept_performAll actions
  have hcells : ∀ cell ≤ c.romTop, board.memory.ram.get cell = ram.get cell := by
    intro cell hcell
    apply hkept.cells
    simp [Memory.isProtected, Memory.ofConfig, hprotect, hcell]
  have hread (a : UInt16) : (Bus.read a board).1 =
      board.memory.ram.get (({ Memory.ofConfig c with ram } : Memory).decode a) := by
    rw [← hkept.decode]
    rfl
  refine ⟨hcells, ?_, ?_⟩
  · intro a ha
    rw [hread, decode_rom hrunnable ram ha, hcells a ha]
  · intro hshadow a habove hend hram
    have hfolded : a &&& c.romTop ≤ c.romTop := UInt16.and_le_right
    rw [hread, decode_shadow ram hshadow habove hend hram, hcells _ hfolded]

/-- A program that writes to its own first byte and to the copy of it at 2000. -/
def selfWriting : Machine := (ofConfig {}).load 0 [0x32, 0x00, 0x00, 0x32, 0x00, 0x20]

theorem selfWriting_kept :
    ({} : Config).fault? = none ∧ ({} : Config).protectRom ∧
      (Bus.read 0x2000
        ([Action.runLine, .reset, .runLine].foldl perform selfWriting).engine.board).1 = 0x32 := by
  have hholds : Holds {} (Ram.zero.load 0 [0x32, 0x00, 0x00, 0x32, 0x00, 0x20]) selfWriting :=
    (Holds.of_new (c := {}) rfl).load 0 _
  have hread := (protected_rom_kept rfl rfl hholds [.runLine, .reset, .runLine]).2.2 rfl 0x2000
    (by decide) (by decide) (by decide)
  refine ⟨rfl, rfl, ?_⟩
  rw [hread]
  decide +kernel

end Machine
end Zx81
