import Zx81.Z80.Cycle

namespace Zx81.Z80

inductive CycleKind where
  | fetch
  | read
  | write
  | input
  | output
  /-- A T-state with an address on the bus and no access. -/
  | internal
  deriving DecidableEq

def CycleKind.tstates : CycleKind → Nat
  | fetch => 4
  | read => 3
  | write => 3
  | input => 4
  | output => 4
  | internal => 1

/-- The kinds of the cycles of an instruction, in order. -/
abbrev Shape := List CycleKind

/-- The T-states that the cycles of a shape ask for. -/
def Shape.tstates : Shape → Nat
  | [] => 0
  | k :: shape => k.tstates + tstates shape

/-- A machine cycle, with what the processor puts on the bus. -/
inductive BusCycle where
  | fetch (address refresh : UInt16)
  | read (address : UInt16)
  | write (address : UInt16) (v : UInt8)
  | input (port : UInt16)
  | output (port : UInt16) (v : UInt8)
  | internal (address : UInt16)

namespace BusCycle

def kind : BusCycle → CycleKind
  | fetch .. => .fetch
  | read .. => .read
  | write .. => .write
  | input .. => .input
  | output .. => .output
  | internal .. => .internal

variable {σ τ : Type} [Bus σ] [Bus τ]

def wait (c : BusCycle) (elapsed : Nat) (bus : σ) : Nat × σ :=
  match c with
  | fetch address _ => Bus.memoryWait address elapsed 4 bus
  | read address => Bus.memoryWait address elapsed 3 bus
  | write address _ => Bus.memoryWait address elapsed 3 bus
  | input port => Bus.portWait port elapsed 4 bus
  | output port _ => Bus.portWait port elapsed 4 bus
  | internal address => Bus.memoryWait address elapsed 1 bus

/-- The access of a cycle; one that gives no byte answers zero. -/
def access (c : BusCycle) (bus : σ) : UInt8 × σ :=
  match c with
  | fetch address refresh => Bus.fetch address refresh bus
  | read address => Bus.read address bus
  | write address v => (0, Bus.write address v bus)
  | input port => Bus.input port bus
  | output port v => (0, Bus.output port v bus)
  | internal _ => (0, bus)

def run (c : BusCycle) (s : Nat × σ) : UInt8 × Nat × σ :=
  let waited := c.wait s.1 s.2
  let accessed := c.access waited.2
  (accessed.1, s.1 + (c.kind.tstates + waited.1), accessed.2)

def runAll (cs : List BusCycle) (s : Nat × σ) : Nat × σ := cs.foldl (fun s c => (c.run s).2) s

@[simp] theorem runAll_nil (s : Nat × σ) : runAll [] s = s := rfl

@[simp] theorem runAll_cons (c : BusCycle) (cs : List BusCycle) (s : Nat × σ) :
    runAll (c :: cs) s = runAll cs (c.run s).2 := rfl

/-- Cycles take the T-states that they ask for, or longer. -/
theorem le_runAll (cs : List BusCycle) (s : Nat × σ) :
    s.1 + Shape.tstates (cs.map kind) ≤ (runAll cs s).1 := by
  induction cs generalizing s with
  | nil => exact Nat.le_refl s.1
  | cons c cs ih =>
    have hrest := ih (c.run s).2
    simp only [List.map_cons, Shape.tstates, runAll_cons]
    simp only [run] at hrest ⊢
    omega

theorem runAll_append (cs ds : List BusCycle) (s : Nat × σ) :
    runAll (cs ++ ds) s = runAll ds (runAll cs s) := List.foldl_append

end BusCycle

/-- A program for every bus. -/
abbrev Program (α : Type) := (σ : Type) → [Bus σ] → Exec σ α

/-- Shapes that begin with one of the first and go on with one of the second. -/
def Shape.product (S T : List Shape) : List Shape := S.flatMap fun x => T.map (x ++ ·)

/-- A program made of machine cycles, each run of which has one of some shapes. It holds interrupts
off only if `holds` allows it. -/
inductive Built (holds : Bool) : {α : Type} → Program α → List Shape → Prop
  | pure {α : Type} (a : α) : Built holds (fun _ _ => Pure.pure a) [[]]
  | inspect {α : Type} (f : Registers → α) : Built holds (fun _ _ => Z80.inspect f) [[]]
  | update (f : Registers → Registers) : Built holds (fun _ _ => Z80.update f) [[]]
  | holdOff (h : holds = true) : Built holds (fun _ _ => holdOffInterrupts) [[]]
  | fetch (address refresh : UInt16) :
      Built holds (fun _ _ => readOpcode address refresh) [[.fetch]]
  | read (address : UInt16) : Built holds (fun _ _ => readByte address) [[.read]]
  | write (address : UInt16) (v : UInt8) : Built holds (fun _ _ => writeByte address v) [[.write]]
  | input (port : UInt16) : Built holds (fun _ _ => readPort port) [[.input]]
  | output (port : UInt16) (v : UInt8) : Built holds (fun _ _ => writePort port v) [[.output]]
  | internal (address : UInt16) : Built holds (fun _ _ => charge address 1) [[.internal]]
  | bind {α β : Type} {p : Program α} {f : (σ : Type) → [Bus σ] → α → Exec σ β}
      {S T : List Shape} (hp : Built holds p S) (hf : ∀ a, Built holds (fun σ _ => f σ a) T) :
      Built holds (fun σ _ => p σ >>= f σ) (Shape.product S T)
  | mono {α : Type} {p : Program α} {S T : List Shape} (hp : Built holds p S) (h : S ⊆ T) :
      Built holds p T

namespace Built

variable {holds : Bool} {α : Type} {p : Program α} {S : List Shape}

/-- What a program does to clock and bus is what a list of cycles does, of one of its shapes. -/
theorem runs (h : Built holds p S) {σ : Type} [Bus σ] (s : Core σ) :
    ∃ cs : List BusCycle, cs.map BusCycle.kind ∈ S ∧
      ((p σ s).2.elapsed, (p σ s).2.bus) = BusCycle.runAll cs (s.elapsed, s.bus) := by
  induction h generalizing s with
  | pure a => exact ⟨[], by simp, rfl⟩
  | inspect f => exact ⟨[], by simp, rfl⟩
  | update f => exact ⟨[], by simp, rfl⟩
  | holdOff _ => exact ⟨[], by simp, rfl⟩
  | fetch address refresh => exact ⟨[.fetch address refresh], by simp [BusCycle.kind], rfl⟩
  | read address => exact ⟨[.read address], by simp [BusCycle.kind], rfl⟩
  | write address v => exact ⟨[.write address v], by simp [BusCycle.kind], rfl⟩
  | input port => exact ⟨[.input port], by simp [BusCycle.kind], rfl⟩
  | output port v => exact ⟨[.output port v], by simp [BusCycle.kind], rfl⟩
  | internal address => exact ⟨[.internal address], by simp [BusCycle.kind], rfl⟩
  | @bind _ _ p f S T _ _ ihp ihf =>
    obtain ⟨cs, hcs, hrun⟩ := ihp s
    obtain ⟨ds, hds, hrun'⟩ := ihf (p σ s).1 (p σ s).2
    refine ⟨cs ++ ds, ?_, ?_⟩
    · simp only [Shape.product, List.mem_flatMap, List.mem_map, List.map_append]
      exact ⟨_, hcs, _, hds, rfl⟩
    · rw [BusCycle.runAll_append, ← hrun, ← hrun']
      rfl
  | mono _ hST ih =>
    obtain ⟨cs, hcs, hrun⟩ := ih s
    exact ⟨cs, hST hcs, hrun⟩

/-- A program that may not hold interrupts off leaves what is held off as it is. -/
theorem leaves_holdOff (h : Built false p S) {σ : Type} [Bus σ] (s : Core σ) :
    (p σ s).2.holdOff = s.holdOff := by
  induction h generalizing s with
  | holdOff h => cases h
  | bind _ _ ihp ihf => exact (ihf _ _).trans (ihp s)
  | mono _ _ ih => exact ih s
  | _ => rfl

end Built

/-- A relation between the clocks and buses of two processors under which each cycle gives both
the same byte. -/
def Alike {σ τ : Type} [Bus σ] [Bus τ] (R : Nat × σ → Nat × τ → Prop) : Prop :=
  ∀ (c : BusCycle) x y, R x y → (c.run x).1 = (c.run y).1 ∧ R (c.run x).2 (c.run y).2

/-- Two processors in the middle of an instruction that differ only in clock and bus. -/
structure Core.Matches {σ τ : Type} (R : Nat × σ → Nat × τ → Prop) (s : Core σ) (t : Core τ) :
    Prop where
  regs : s.regs = t.regs
  holdOff : s.holdOff = t.holdOff
  bus : R (s.elapsed, s.bus) (t.elapsed, t.bus)

/-- A program does the same on two buses that answer alike. -/
theorem Built.together {holds : Bool} {α : Type} {p : Program α} {S : List Shape}
    (h : Built holds p S)
    {σ τ : Type} [Bus σ] [Bus τ] {R : Nat × σ → Nat × τ → Prop} (hR : Alike R) {s : Core σ}
    {t : Core τ} (hst : s.Matches R t) :
    (p σ s).1 = (p τ t).1 ∧ (p σ s).2.Matches R (p τ t).2 := by
  induction h generalizing s t with
  | pure a => exact ⟨rfl, hst⟩
  | inspect f => exact ⟨congrArg f hst.regs, hst⟩
  | update f => exact ⟨rfl, congrArg f hst.regs, hst.holdOff, hst.bus⟩
  | holdOff _ => exact ⟨rfl, hst.regs, rfl, hst.bus⟩
  | fetch address refresh =>
    have hc := hR (.fetch address refresh) _ _ hst.bus
    exact ⟨hc.1, hst.regs, hst.holdOff, hc.2⟩
  | read address =>
    have hc := hR (.read address) _ _ hst.bus
    exact ⟨hc.1, hst.regs, hst.holdOff, hc.2⟩
  | write address v =>
    have hc := hR (.write address v) _ _ hst.bus
    exact ⟨rfl, hst.regs, hst.holdOff, hc.2⟩
  | input port =>
    have hc := hR (.input port) _ _ hst.bus
    exact ⟨hc.1, hst.regs, hst.holdOff, hc.2⟩
  | output port v =>
    have hc := hR (.output port v) _ _ hst.bus
    exact ⟨rfl, hst.regs, hst.holdOff, hc.2⟩
  | internal address =>
    have hc := hR (.internal address) _ _ hst.bus
    exact ⟨rfl, hst.regs, hst.holdOff, hc.2⟩
  | @bind _ _ p f _ _ _ _ ihp ihf =>
    obtain ⟨ha, hmatch⟩ := ihp hst
    have hf := ihf (p σ s).1 hmatch
    have hrun : (p τ >>= f τ) t = f τ (p σ s).1 (p τ t).2 := by
      rw [ha]
      rfl
    change (f σ _ _).1 = ((p τ >>= f τ) t).1 ∧ (f σ _ _).2.Matches R ((p τ >>= f τ) t).2
    rw [hrun]
    exact hf
  | mono _ _ ih => exact ih hst

/-- The processor on another clock and bus. -/
def Core.onto {σ τ : Type} (g : Nat × τ → Nat × σ) (s : Core τ) : Core σ :=
  ⟨s.regs, (g (s.elapsed, s.bus)).1, s.holdOff, (g (s.elapsed, s.bus)).2⟩

/-- A program can be run on either of two buses of which one is a view of the other. -/
theorem Built.onto {holds : Bool} {p : Program Unit} {S : List Shape} (h : Built holds p S)
    {σ τ : Type} [Bus σ] [Bus τ]
    {g : Nat × τ → Nat × σ} (hg : Alike fun x y => x = g y) (s : Core τ) :
    (p σ (s.onto g)).2 = (p τ s).2.onto g := by
  have hs : Core.Matches (fun x y => x = g y) (s.onto g) s := ⟨rfl, rfl, rfl⟩
  obtain ⟨-, hregs, hholdOff, hbus⟩ := h.together hg hs
  have hclock := congrArg Prod.fst hbus
  have hstate := congrArg Prod.snd hbus
  unfold Core.onto
  rw [← hregs, ← hholdOff, ← hclock, ← hstate]
  rfl

end Zx81.Z80
