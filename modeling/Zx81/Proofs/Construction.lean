import Zx81.Proofs.RomProtection

namespace Zx81

open Z80 (BusCycle Request)

namespace Memory

def MadeFrom (c : Config) (m : Memory) : Prop := ∃ ram, m = { Memory.ofConfig c with ram }

theorem MadeFrom.write {c : Config} {m : Memory} (h : MadeFrom c m) (a : UInt16) (v : UInt8) :
    MadeFrom c (m.write a v) := by
  obtain ⟨ram, rfl⟩ := h
  unfold Memory.write
  simp only
  split
  · exact ⟨ram, rfl⟩
  · exact ⟨_, rfl⟩

end Memory

theorem LoadEntry.madeFrom_store {c : Config} {m : Memory} (h : m.MadeFrom c) (a : UInt16)
    (bytes : List UInt8) : (store m a bytes).MadeFrom c := by
  induction bytes generalizing m a with
  | nil => exact h
  | cons v bytes ih => exact ih (h.write a v) (a + 1)

namespace Board

/-- A board made from a configuration, whose own character set has not been touched. -/
structure MadeFrom (c : Config) (b : Board) : Prop where
  wiring : b.wiring = ⟨c.displayStart, c.charGenerator, c.ntsc⟩
  qs : b.qs = {}
  lineLength : b.ula.lineLength = c.lineTstates
  memory : b.memory.MadeFrom c

theorem MadeFrom.cycle {c : Config} (hqs : c.charGenerator ≠ .qs) (cycle : BusCycle) (t : Nat)
    {b : Board} (h : MadeFrom c b) : MadeFrom c (cycle.run (t, b)).2.2 := by
  obtain ⟨hwiring, hset, hlength, hmemory⟩ := h
  cases cycle with
  | fetch a refresh =>
    change MadeFrom c (b.fetch a refresh).2
    unfold fetch fetchDisplay
    split
    · simp only
      split
      · exact ⟨hwiring, hset, hlength, hmemory⟩
      · exact ⟨hwiring, hset, hlength, hmemory⟩
    · exact ⟨hwiring, hset, hlength, hmemory⟩
  | write a v =>
    have hplain : ¬b.wiring.charGenerator = .qs := by rwa [hwiring]
    have hwrite : write a v b = ⟨b.memory.write a v, b.ula, b.keyboard, b.qs, b.wiring⟩ :=
      if_neg hplain
    change MadeFrom c (write a v b)
    rw [hwrite]
    exact ⟨hwiring, hset, hlength, hmemory.write a v⟩
  | input port =>
    change MadeFrom c (b.input port).2
    unfold input
    split
    · exact ⟨hwiring, hset, hlength, hmemory⟩
    · exact ⟨hwiring, hset, hlength, hmemory⟩
  | read | output | internal => exact ⟨hwiring, hset, hlength, hmemory⟩

end Board

namespace Engine

def MadeFrom (c : Config) (e : Engine) : Prop := e.board.MadeFrom c

theorem MadeFrom.load {c : Config} {e : Engine} (h : e.MadeFrom c) : e.load.MadeFrom c := by
  have hstored : (Loading.mk e.cpu e.board.memory e.tape).run.2.memory.MadeFrom c := by
    simp only [Loading.run]
    split
    · exact LoadEntry.madeFrom_store h.memory _ _
    · exact h.memory
  exact ⟨h.wiring, h.qs, h.lineLength, hstored⟩

theorem stable_madeFrom {c : Config} (hqs : c.charGenerator ≠ .qs) : Stable (MadeFrom c) where
  load h := h.load
  request q h := q.invariant (Board.MadeFrom.cycle hqs) _ h
  congr h _ hmemory hwiring hset hlength :=
    ⟨hwiring.trans h.wiring, hset.trans h.qs, hlength.trans h.lineLength, hmemory ▸ h.memory⟩

end Engine

namespace Machine

structure MadeFrom (c : Config) (m : Machine) : Prop where
  config : m.config = c
  engine : m.engine.MadeFrom c

theorem madeFrom_loaded (c : Config) (ram : Ram) :
    MadeFrom c ((ofConfig c).mapMemory (·.mapRam fun _ => ram)) :=
  ⟨rfl, rfl, rfl, rfl, ram, rfl⟩

theorem config_runLine (m : Machine) : m.runLine.2.config = m.config := by
  simp only [runLine]
  split <;> rfl

theorem config_runLines (m : Machine) (n : Nat) : (m.runLines n).config = m.config := by
  induction n generalizing m with
  | zero => rfl
  | succ n ih =>
    simp only [runLines]
    split
    · rfl
    · split
      · exact m.config_runLine
      · exact (ih m.runLine.2).trans m.config_runLine

theorem config_perform (m : Machine) (action : Action) :
    (m.perform action).config = m.config := by
  cases action with
  | runLine => exact m.config_runLine
  | runFrame => exact m.config_runLines _
  | _ => rfl

section Perform

variable {c : Config} (hqs : c.charGenerator ≠ .qs) {m : Machine} (h : MadeFrom c m)

include hqs h

theorem MadeFrom.perform (action : Action) : MadeFrom c (m.perform action) := by
  refine ⟨(m.config_perform action).trans h.config, ?_⟩
  have hstable := Engine.stable_madeFrom hqs
  cases action with
  | runLine => exact runLine_of_stable hstable h.engine
  | runFrame => exact runLines_of_stable hstable h.engine _
  | scanOnto line => exact scanOnto_of_stable hstable h.engine line
  | access cycle => exact h.engine.cycle hqs cycle 0
  | reset | setKey | insertTape | setRegisters =>
    exact ⟨h.engine.wiring, h.engine.qs, h.engine.lineLength, h.engine.memory⟩
  | setSchedule | setStopped => exact h.engine

theorem MadeFrom.performAll (actions : List Action) :
    MadeFrom c (actions.foldl Machine.perform m) := by
  induction actions generalizing m with
  | nil => exact h
  | cons action actions ih => exact ih (h.perform hqs action)

end Perform

end Machine
end Zx81
