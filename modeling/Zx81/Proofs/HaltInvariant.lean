import Zx81.Proofs.Halt
import Zx81.Proofs.RomProtection

namespace Zx81

open Video (Scanline)
open Z80 (Cpu HaltAt HaltsPlainly)

namespace Board

/-- The address at which an opcode is read: bit 15 is not wired in the display file. -/
def opcodeAddress (b : Board) (a : UInt16) : UInt16 :=
  if b.wiring.displayStart ≤ a then a &&& 0x7FFF else a

theorem read_of_fetch {b : Board} {a refresh : UInt16} (h : (b.fetch a refresh).1 = 0x76) :
    b.memory.read (b.opcodeAddress a) = 0x76 := by
  unfold fetch at h
  unfold opcodeAddress
  split at h
  case isTrue hdisplay =>
    rw [if_pos hdisplay]
    simp only [fetchDisplay] at h
    split at h
    · exact h
    · cases h
  case isFalse hdisplay =>
    rw [if_neg hdisplay]
    exact h

theorem fetch_of_read {b : Board} {a : UInt16} (h : b.memory.read (b.opcodeAddress a) = 0x76)
    (refresh : UInt16) : b.fetch a refresh = (0x76, b) := by
  have hinstruction : isInstruction 0x76 := by decide
  unfold opcodeAddress at h
  unfold fetch
  split
  case isTrue hdisplay =>
    rw [if_pos hdisplay] at h
    simp only [fetchDisplay, h, hinstruction, if_true]
  case isFalse hdisplay =>
    rw [if_neg hdisplay] at h
    rw [h]

theorem haltAt_iff {b : Board} {a : UInt16} :
    HaltAt a b ↔ b.memory.read (b.opcodeAddress a) = 0x76 :=
  ⟨fun h => read_of_fetch (congrArg Prod.fst (h 0)), fetch_of_read⟩

theorem haltsPlainly : HaltsPlainly Board where
  wait _ _ _ _ := rfl
  read _ _ := rfl
  halt _ _ _ h := fetch_of_read (read_of_fetch h)

end Board

/-- No loading routine begins at a halt instruction. -/
theorem LoadEntry.at?_of_haltAt {b : Board} {pc : UInt16} (h : HaltAt pc b) :
    LoadEntry.at? b.memory pc = none := by
  have hread := Board.haltAt_iff.1 h
  have hentries : ∀ e ∈ LoadEntry.all, e.pc &&& 0x7FFF = e.pc ∧ e.opcode ≠ 0x76 := by decide
  apply List.find?_eq_none.2
  intro e he hmatch
  obtain ⟨hlow, hopcode⟩ := hentries e he
  simp only [Bool.and_eq_true, beq_iff_eq] at hmatch
  obtain ⟨rfl, hbyte⟩ := hmatch
  have hplain : b.opcodeAddress e.pc = e.pc := by
    unfold Board.opcodeAddress
    rw [hlow, ite_self]
  rw [hplain, hbyte] at hread
  exact hopcode hread

namespace Engine

def HaltedAt (e : Engine) : Prop := e.cpu.HaltedAt e.board

variable {e : Engine}

theorem run_of_haltAt (h : HaltAt e.cpu.regs.pc e.board) :
    (Loading.mk e.cpu e.board.memory e.tape).run = (false, ⟨e.cpu, e.board.memory, e.tape⟩) := by
  simp only [Loading.run, LoadEntry.at?_of_haltAt h]

theorem load_of_haltAt (h : HaltAt e.cpu.regs.pc e.board) : e.load = e := by
  have hrun := run_of_haltAt h
  simp only [load, hrun]

theorem halted_load : e.load.cpu.regs.halted = e.cpu.regs.halted := by
  change (Loading.mk e.cpu e.board.memory e.tape).run.2.cpu.regs.halted = _
  simp only [Loading.run]
  split <;> rfl

/-- Only the processor and loading from tape could end a halt, or write over the instruction. -/
theorem stable_haltedAt : Stable HaltedAt where
  load := by
    intro e h hhalted
    rw [halted_load] at hhalted
    rw [load_of_haltAt (h hhalted)]
    exact h hhalted
  request q h := Cpu.HaltedAt.request Board.haltsPlainly h q
  congr := by
    intro e e' h hcpu hmemory hwiring _ _ hhalted
    rw [hcpu] at hhalted ⊢
    have hat := Board.haltAt_iff.1 (h hhalted)
    apply Board.haltAt_iff.2
    unfold Board.opcodeAddress at hat ⊢
    rwa [hmemory, hwiring]

/-- A halted engine. The next step loads nothing, and changes nothing but R and the count of
T-states. -/
structure Rests (e : Engine) : Prop where
  cpu : e.cpu.Resting 0 e.board
  display : e.board.wiring.displayStart ≤ e.cpu.regs.pc →
    ∀ refresh, e.board.fetchDisplay e.cpu.regs.pc refresh = (0x76, e.board)
  load : (Loading.mk e.cpu e.board.memory e.tape).run = (false, ⟨e.cpu, e.board.memory, e.tape⟩)
  stepped : e.stepped = (4, { e.mapBoard (·.mapUla (·.clearEvent)) with
    cpu := ⟨e.cpu.regs.advanceRefresh, false, e.cpu.ticks + 4⟩ })

theorem HaltedAt.resting (h : e.HaltedAt) (hhalted : e.cpu.regs.halted) :
    e.cpu.Resting 0 e.board := by
  have hwait : (Bus.memoryWait e.cpu.regs.pc 0 4 e.board).1 = 0 := rfl
  have hresting := Cpu.HaltedAt.resting Board.haltsPlainly h hhalted
  rwa [hwait] at hresting

theorem HaltedAt.rests (h : e.HaltedAt) (hhalted : e.cpu.regs.halted) : e.Rests := by
  have hat := h hhalted
  refine ⟨h.resting hhalted, ?_, run_of_haltAt hat, ?_⟩
  · intro hdisplay refresh
    have hfetch : e.board.fetch e.cpu.regs.pc refresh = (0x76, e.board) := hat refresh
    rwa [Board.fetch, if_pos hdisplay] at hfetch
  · have hcleared : (e.mapBoard (·.mapUla (·.clearEvent))).HaltedAt :=
      stable_haltedAt.mapUla h fun _ => rfl
    have hstep := (hcleared.resting hhalted).step
    simp only [Nat.add_zero] at hstep
    rw [Engine.stepped, load_of_haltAt (hcleared hhalted), onBoard, hstep]
    rfl

end Engine

namespace Machine

def Action.writes : Action → Bool
  | .setRegisters _ => true
  | .access _ => true
  | _ => false

def HaltedAt (m : Machine) : Prop := m.engine.HaltedAt

variable {m : Machine}

theorem HaltedAt.perform (h : m.HaltedAt) {action : Action} (hquiet : ¬action.writes) :
    (m.perform action).HaltedAt := by
  cases action with
  | runLine => exact runLine_of_stable Engine.stable_haltedAt h
  | runFrame => exact runLines_of_stable Engine.stable_haltedAt h _
  | scanOnto line => exact scanOnto_of_stable Engine.stable_haltedAt h line
  | reset => exact fun hhalted => nomatch hhalted
  | setKey key pressed => exact Engine.stable_haltedAt.congr h rfl rfl rfl rfl rfl
  | setSchedule schedule => exact h
  | setStopped stopped => exact h
  | insertTape tape => exact Engine.stable_haltedAt.congr h rfl rfl rfl rfl rfl
  | setRegisters regs => exact absurd rfl hquiet
  | access c => exact absurd rfl hquiet

theorem HaltedAt.performAll (h : m.HaltedAt) {actions : List Action}
    (hquiet : ∀ action ∈ actions, ¬action.writes) : (actions.foldl Machine.perform m).HaltedAt := by
  induction actions generalizing m with
  | nil => exact h
  | cons action actions ih =>
    obtain ⟨hfirst, hrest⟩ := List.forall_mem_cons.1 hquiet
    exact ih (h.perform hfirst) hrest

/-- Between two instructions a halted machine rests, and so does a halted processor on the plain
bus, where a fetch takes 4 T-states and the wait states of the bus: the halt instruction is fetched
again, and nothing but R and the clock changes until an interrupt. The machine was awake at first,
and no host wrote to its memory or registers since then; the processor was awake at first, and went
through any steps, interrupts and resets. -/
theorem halted_rests (hawake : m.engine.cpu.regs.halted = false) {actions : List Action}
    (hquiet : ∀ action ∈ actions, ¬action.writes) (line : Scanline) {cpu : Cpu}
    (hcpu : cpu.regs.halted = false) (bus : FlatBus) (stimuli : List Z80.Stimulus) :
    let after := stimuli.foldl Cpu.react (cpu, bus)
    (∀ e ∈ (actions.foldl perform m).visits line, e.cpu.regs.halted → e.Rests) ∧
      (after.1.regs.halted → after.1.Resting after.2.waitStates after.2) := by
  intro after
  have hbegin : m.HaltedAt := fun hhalted => absurd (hhalted.symm.trans hawake) (by decide)
  have hafter : after.1.HaltedAt after.2 :=
    Cpu.haltedAt_foldl Z80.haltsPlainly_flatBus
      (fun hhalted => absurd (hhalted.symm.trans hcpu) (by decide)) stimuli
  refine ⟨?_, ?_⟩
  · intro e he hhalted
    have hat := visits_of_stable Engine.stable_haltedAt (hbegin.performAll hquiet) line e he
    exact hat.rests hhalted
  · intro hhalted
    exact hafter.resting Z80.haltsPlainly_flatBus hhalted

def idle : Machine := (ofConfig { singleStep := true }).load 0 [0x76]

def idleBus : FlatBus := { ram := Ram.zero.load 0 [0x76], waitStates := 1 }

theorem idle_rests :
    let next := [Action.runLine].foldl perform idle
    let after := Cpu.react (({} : Cpu), idleBus) (.request .step)
    (next.engine.beginLine next.line).1.Rests ∧ (after.1.step after.2).tstates = 5 := by
  intro next after
  have hawake : ({} : Cpu).regs.halted = false := rfl
  have hquiet : ∀ action ∈ [Action.runLine], ¬action.writes := by simp [Action.writes]
  have hrests := halted_rests (m := idle) rfl hquiet next.line hawake idleBus [.request .step]
  obtain ⟨hmachine, hcpu⟩ := hrests
  have hnext : (next.engine.beginLine next.line).1.cpu.regs.halted := by decide +kernel
  have hafter : after.1.regs.halted := by decide +kernel
  have hvisited : (next.engine.beginLine next.line).1 ∈ next.visits next.line :=
    next.mem_visits next.line
  exact ⟨hmachine _ hvisited hnext, congrArg Z80.Stepped.tstates (hcpu hafter).step⟩

/-- On the plain bus a halt takes longer with wait states. -/
theorem halt_waits :
    let after := Cpu.react (({} : Cpu), idleBus) (.request .step)
    after.1.regs.halted ∧ (after.1.step after.2).tstates ≠ 4 := by
  decide +kernel

end Machine
end Zx81
