import Mathlib.Algebra.BigOperators.Intervals
import Mathlib.Algebra.Order.BigOperators.Group.Finset
import Mathlib.Data.Int.ModEq
import Mathlib.Data.Nat.Count
import Zx81.Proofs.InterruptNesting
import Zx81.Proofs.PrefixChains
import Zx81.Proofs.RequestTrace

namespace Zx81.Z80

namespace Registers

/-- The two parts of R, with the other registers as after a reset. -/
def counter (r : Registers) : Registers := { refresh := r.refresh, refreshTop := r.refreshTop }

theorem r_counter (r : Registers) : r.counter.r = r.r := rfl

theorem counter_advanced (n : ℕ) (r : Registers) :
    (advanceRefresh^[n] r).counter = advanceRefresh^[n] r.counter := by
  have hone : Function.Semiconj counter advanceRefresh advanceRefresh := fun _ => rfl
  exact hone.iterate_right n r

/-- The address and the refresh address of the opcode fetch that `j` others of the same step
precede: PC moved past those, and I beside R as those have left it. -/
def opcodeCycle (r : Registers) (j : ℕ) : UInt16 × UInt16 :=
  (r.pc + UInt16.ofNat j, 256 * r.i.toUInt16 + (advanceRefresh^[j] r).r.toUInt16)

/-- R has moved by a number of counts: its low seven bits count, and bit 7 stays. -/
structure CountedBy (d : ℤ) (r r' : Registers) : Prop where
  top : testBit r'.r 7 = testBit r.r 7
  low : (r'.r.toNat : ℤ) ≡ r.r.toNat + d [ZMOD 128]

theorem countedBy_of_counter {n : ℕ} {r r' : Registers}
    (h : r'.counter = advanceRefresh^[n] r.counter) : CountedBy n r r' := by
  obtain ⟨hlow, htop⟩ := Cpu.r_pastOpcodes { regs := r } n
  have hr : (Cpu.pastOpcodes { regs := r } n).regs.r = r'.r := by
    rw [← r'.r_counter, h, ← counter_advanced]
    rfl
  rw [hr] at hlow htop
  refine ⟨htop, ?_⟩
  unfold Int.ModEq
  simp only at hlow
  omega

theorem refresh_lt_of_counter {n : ℕ} {r r' : Registers} (hn : 0 < n)
    (h : r'.counter = advanceRefresh^[n] r.counter) : r'.refresh.toNat < 128 := by
  obtain ⟨m, rfl⟩ := Nat.exists_eq_succ_of_ne_zero (Nat.ne_of_gt hn)
  have hrefresh : r'.counter.refresh.toNat < 128 := by
    rw [h, Function.iterate_succ_apply', toNat_refresh_advanceRefresh]
    exact Nat.mod_lt _ (by decide)
  exact hrefresh

end Registers

open Registers (counter advanceRefresh CountedBy)

/-- How a step goes on behind its first opcode. -/
inductive StepKind where
  /-- No second opcode is fetched. -/
  | single
  /-- A second opcode is fetched and performed: behind CB and ED, and behind DD and FD if it names
  HL or is CB. -/
  | paged
  /-- A prefix DD or FD, behind which any other opcode has been fetched and left for the next
  step. -/
  | dropped
  deriving DecidableEq

/-- The kind of a step that begins with an instruction, given the opcode behind it. -/
def Instruction.stepKind (i : Instruction) (op : UInt8) : StepKind :=
  match i with
  | bitPage | extendedPage => .paged
  | indexPage x => if ((decode op).indexed x).isSome then .paged else .dropped
  | _ => .single

namespace StepKind

/-- The opcode fetches behind the first one, with R as that one left it. -/
def laterFetches (kind : StepKind) (r : Registers) : List (UInt16 × UInt16) :=
  match kind with
  | single => []
  | paged | dropped => [(r.pc, r.ir)]

/-- What is done to R behind the first opcode. -/
def settle (kind : StepKind) (r : Registers) : Registers :=
  match kind with
  | single => r
  | paged => r.advanceRefresh
  | dropped => r.advanceRefresh.retreatRefresh

/-- The counts of R in a whole step. -/
def advance : StepKind → ℕ
  | single | dropped => 1
  | paged => 2

def fetches : StepKind → ℕ
  | single => 1
  | paged | dropped => 2

variable (kind : StepKind) (cpu : Cpu)

theorem counter_settle :
    (kind.settle cpu.pastOpcode.regs).counter = advanceRefresh^[kind.advance] cpu.regs.counter := by
  cases kind with
  | single | paged => rfl
  | dropped => exact congrArg counter cpu.regs.retreatRefresh_advanceRefresh

theorem cons_laterFetches :
    (cpu.regs.pc, cpu.regs.ir) :: kind.laterFetches cpu.pastOpcode.regs =
      (List.range kind.fetches).map cpu.regs.opcodeCycle := by
  have hfirst : (cpu.regs.pc, cpu.regs.ir) = cpu.regs.opcodeCycle 0 :=
    congrArg (·, cpu.regs.ir) (UInt16.add_zero cpu.regs.pc).symm
  rw [hfirst]
  cases kind <;> rfl

/-- The fetch behind a dropped prefix is taken back. -/
theorem advance_add : kind.advance + (kind == .dropped).toNat = kind.fetches := by
  cases kind <;> rfl

end StepKind

section Programs

variable {σ : Type} [Bus σ]

/-- Without LD R,A the extended page leaves R as it is. -/
theorem Extended.keeps_counter {e : Extended} (h : e ≠ .storeR) :
    Keeps counter (e.perform : Exec σ Unit) := by
  cases hcontrols : e.controls with
  | false => exact (Extended.keeps_system hcontrols).map counter
  | true =>
    unfold Extended.perform
    cases e with
    | storeR => exact absurd rfl h
    | returnInterrupt =>
      exact .bind (.update fun _ => rfl) fun _ => .bind (fun _ => rfl) fun _ =>
        .jumpTo (fun _ _ => rfl) _
    | interruptMode im => exact .update fun _ => rfl
    | storeI => exact .bind (.internalRefresh 1) fun _ => .update fun _ => rfl
    | _ => cases hcontrols

/-- An instruction of the main page that fetches no second opcode leaves R as it is. -/
theorem Instruction.keeps_counter {i : Instruction} (hbit : i ≠ .bitPage)
    (hextended : i ≠ .extendedPage) : Keeps counter (i.perform : Exec σ Unit) := by
  cases hcontrols : i.controls with
  | false => exact (Instruction.keeps_system hcontrols hbit).map counter
  | true =>
    unfold Instruction.perform
    cases i with
    | halt => exact .update fun _ => rfl
    | enableInterrupts => exact .bind (.update fun _ => rfl) fun _ _ => rfl
    | disableInterrupts => exact .update fun _ => rfl
    | extendedPage => exact absurd rfl hextended
    | _ => cases hcontrols

/-- Only the prefixes CB, ED, DD and FD have a second opcode fetched. -/
theorem count_fetch_shapes (op : UInt8) (hbit : decode op ≠ .bitPage)
    (hextended : decode op ≠ .extendedPage) :
    ∀ shape ∈ (decode op).shapes, shape.count .fetch = 0 := by
  have hall : ∀ op, decode op ≠ .bitPage → decode op ≠ .extendedPage →
      ∀ shape ∈ (decode op).shapes, shape.count .fetch = 0 := forall_opcode (by decide +kernel)
  exact hall op hbit hextended

theorem eq_of_decode_extendedPage {op : UInt8} (h : decode op = .extendedPage) : op = 0xED := by
  have hall : ∀ op, decode op = .extendedPage → op = 0xED := forall_opcode (by decide +kernel)
  exact hall op h

theorem eq_of_decode_storeR {op : UInt8} (h : Extended.decode op = .storeR) : op = 0x4F := by
  have hall : ∀ op, Extended.decode op = .storeR → op = 0x4F := forall_opcode (by decide +kernel)
  exact hall op h

theorem count_fetch_extended (op : UInt8) :
    ∀ shape ∈ (Extended.decode op).shapes, shape.count .fetch = 0 := by
  revert op
  exact forall_opcode (by decide +kernel)

theorem count_fetch_indexed {x : IndexReg} {op : UInt8} {i : Instruction}
    (h : (decode op).indexed x = some i) :
    (i ≠ .bitPage ∧ i ≠ .extendedPage) ∧ ∀ shape ∈ i.shapes, shape.count .fetch = 0 := by
  have hall : ∀ op, ∀ i ∈ ((decode op).indexed x).toList,
      (i ≠ .bitPage ∧ i ≠ .extendedPage) ∧ ∀ shape ∈ i.shapes, shape.count .fetch = 0 := by
    cases x <;> exact forall_opcode (by decide +kernel)
  exact hall op i (by simp [h])

theorem fetches_fetchOpcode (s : Core (Traced σ)) :
    (fetchOpcode s).2.bus.fetches = s.bus.fetches ++ [(s.regs.pc, s.regs.ir)] := by
  obtain ⟨regs, elapsed, holdOff, bus, events⟩ := s
  change List.filterMap _ ((events.push _).push _).toList = _
  simp only [Traced.fetches, Array.toList_push, List.append_assoc, List.filterMap_append]
  rfl

omit [Bus σ] in
theorem counter_wake (r : Registers) : (Cpu.wake r).counter = r.counter := by
  rw [wake_eq]
  rfl

/-- An instruction that fetches no second opcode. -/
theorem Instruction.counts_perform {i : Instruction} (h : i ≠ .bitPage ∧ i ≠ .extendedPage)
    (hshapes : ∀ shape ∈ i.shapes, shape.count .fetch = 0) (s : Core (Traced σ)) :
    (i.perform s).2.regs.counter = s.regs.counter ∧
      (i.perform s).2.bus.fetches = s.bus.fetches :=
  ⟨Instruction.keeps_counter h.1 h.2 s, (Built.perform i).fetches_eq hshapes s⟩

/-- What an instruction behind its opcode does to R, and the opcodes it fetches. -/
theorem Instruction.counts_execute {i : Instruction}
    (hshapes : i ≠ .bitPage → i ≠ .extendedPage → ∀ shape ∈ i.shapes, shape.count .fetch = 0)
    (s : Core (Traced σ))
    (hload : i = .extendedPage → Extended.decode (fetchOpcode s).1 ≠ .storeR) :
    let kind := i.stepKind (fetchOpcode s).1
    (i.execute s).2.regs.counter = (kind.settle s.regs).counter ∧
      (i.execute s).2.bus.fetches = s.bus.fetches ++ kind.laterFetches s.regs := by
  let fetched := fetchOpcode s
  have hfetches : fetched.2.bus.fetches = s.bus.fetches ++ [(s.regs.pc, s.regs.ir)] :=
    fetches_fetchOpcode s
  unfold Instruction.execute
  cases i with
  | bitPage =>
    let op := BitOp.decode fetched.1
    let column := opcodeColumn fetched.1
    have hkept : Keeps Registers.system
        (BitPage.onOperand op (Operand.ofCode column) : Exec (Traced σ) Unit) := .onOperand op _
    have hbuilt : Built false (fun _ _ => BitPage.onOperand op (Operand.ofCode column)) _ :=
      .onOperand op column
    have hnone := hbuilt.fetches_eq (by decide) fetched.2
    exact ⟨hkept.map counter fetched.2, hnone.trans hfetches⟩
  | extendedPage =>
    have hbuilt : Built false (fun _ _ => (Extended.decode fetched.1).perform) _ := .extended _
    have hnone := hbuilt.fetches_eq (count_fetch_extended fetched.1) fetched.2
    exact ⟨Extended.keeps_counter (hload rfl) fetched.2, hnone.trans hfetches⟩
  | indexPage x =>
    have hbind (f : UInt8 → Exec (Traced σ) Unit) :
        ((fetchOpcode >>= f) s).2 = (f fetched.1 fetched.2).2 := rfl
    simp only [hbind, stepKind]
    cases hbehind : (decode fetched.1).indexed x with
    | some i =>
      obtain ⟨hi, hshapes⟩ := count_fetch_indexed hbehind
      obtain ⟨hkept, hnone⟩ := Instruction.counts_perform hi hshapes fetched.2
      exact ⟨hkept, hnone.trans hfetches⟩
    | none => exact ⟨rfl, hfetches⟩
  | _ =>
    obtain ⟨hkept, hnone⟩ := Instruction.counts_perform ⟨by simp, by simp⟩
      (hshapes (by simp) (by simp)) s
    exact ⟨hkept, hnone.trans (List.append_nil _).symm⟩

namespace Cpu

/-- The opcode that the next step fetches first, and the one behind it. -/
def nextOpcodes (cpu : Cpu) (bus : σ) : UInt8 × UInt8 :=
  let fetched := fetchOpcode (⟨cpu.regs, 0, false, bus⟩ : Core σ)
  (fetched.1, (fetchOpcode fetched.2).1)

def stepKind (cpu : Cpu) (bus : σ) : StepKind :=
  (decode (cpu.nextOpcodes bus).1).stepKind (cpu.nextOpcodes bus).2

theorem counts_step (cpu : Cpu) (bus : σ) (hload : cpu.nextOpcodes bus ≠ (0xED, 0x4F)) :
    let kind := cpu.stepKind bus
    let t := cpu.step (Traced.mk bus #[])
    t.cpu.regs.counter = advanceRefresh^[kind.advance] cpu.regs.counter ∧
      t.bus.fetches = (List.range kind.fetches).map cpu.regs.opcodeCycle := by
  intro kind t
  let first := fetchOpcode (⟨cpu.regs, 0, false, Traced.mk bus #[]⟩ : Core (Traced σ))
  have hload' : decode first.1 = .extendedPage →
      Extended.decode (fetchOpcode first.2).1 ≠ .storeR := by
    intro hpage hstore
    have hprefix : first.1 = 0xED := eq_of_decode_extendedPage hpage
    have hbehind : (fetchOpcode first.2).1 = 0x4F := eq_of_decode_storeR hstore
    exact hload (Prod.ext hprefix hbehind)
  have hfirst : first.2.bus.fetches = [(cpu.regs.pc, cpu.regs.ir)] := fetches_fetchOpcode _
  obtain ⟨hcounter, hfetches⟩ :=
    Instruction.counts_execute (count_fetch_shapes first.1) first.2 hload'
  rw [hfirst] at hfetches
  exact ⟨hcounter.trans (kind.counter_settle cpu), hfetches.trans (kind.cons_laterFetches cpu)⟩

end Cpu

theorem counter_acceptInterrupt (s : Core σ) :
    (Cpu.acceptInterrupt s).2.regs.counter = s.regs.counter.advanceRefresh := by
  rw [view_acceptInterrupt counter (fun _ _ => rfl) (fun _ _ => rfl) s]
  exact congrArg advanceRefresh (counter_wake s.regs)

theorem counter_acceptNmi (s : Core σ) :
    (Cpu.acceptNmi s).2.regs.counter = s.regs.counter.advanceRefresh := by
  unfold Cpu.acceptNmi
  rw [Keeps.after_update counter (fun _ => .bind (.internalRefresh 5) fun _ =>
    .bind (.inspect _) fun _ => .bind (.push (fun _ _ => rfl) _) fun _ =>
      .jumpTo (fun _ _ => rfl) _) s]
  exact congrArg advanceRefresh (counter_wake s.regs)

namespace Request

/-- A request that is answered with an interrupt cycle. -/
def acknowledged (q : Request) (cpu : Cpu) : Bool :=
  match q with
  | step => false
  | interrupt => cpu.accepts
  | nmi _ => true

/-- A step in which a prefix DD or FD is dropped. -/
def drops (q : Request) (cpu : Cpu) (bus : σ) : Bool :=
  match q with
  | step => cpu.stepKind bus == .dropped
  | _ => false

/-- A step that executes LD R,A. -/
def loadsRefresh (q : Request) (cpu : Cpu) (bus : σ) : Bool :=
  match q with
  | step => cpu.nextOpcodes bus == (0xED, 0x4F)
  | _ => false

def advance (q : Request) (cpu : Cpu) (bus : σ) : ℕ :=
  match q with
  | step => (cpu.stepKind bus).advance
  | _ => (q.acknowledged cpu).toNat

def fetchCount (q : Request) (cpu : Cpu) (bus : σ) : ℕ :=
  match q with
  | step => (cpu.stepKind bus).fetches
  | _ => 0

theorem advance_add (q : Request) (cpu : Cpu) (bus : σ) :
    q.advance cpu bus + (q.drops cpu bus).toNat =
      q.fetchCount cpu bus + (q.acknowledged cpu).toNat := by
  cases q with
  | step => exact (cpu.stepKind bus).advance_add
  | interrupt | nmi => exact Nat.add_comm _ _

variable {q : Request} {cpu : Cpu} {bus : σ}

theorem advance_pos (h : q = step ∨ q.acknowledged cpu) : 0 < q.advance cpu bus := by
  cases q with
  | step =>
    change 0 < (cpu.stepKind bus).advance
    cases cpu.stepKind bus <;> decide
  | interrupt | nmi =>
    have hanswered := h.resolve_left (by simp)
    simp [advance, hanswered]

theorem fetches_eq_nil (h : ∀ shape ∈ q.shapes, shape.count .fetch = 0) :
    (q.trace cpu bus).fetches = [] := by
  rcases q.run_built cpu with ⟨-, hidle⟩ | ⟨p, holdOff, holds, hp, hrun⟩
  · rw [trace, hidle]
    rfl
  · rw [trace, hrun]
    exact hp.fetches_eq h ⟨cpu.regs, q.start cpu, holdOff, ⟨bus, #[]⟩⟩

theorem counter_run (hload : ¬q.loadsRefresh cpu bus) :
    (q.run cpu bus).cpu.regs.counter = advanceRefresh^[q.advance cpu bus] cpu.regs.counter := by
  cases q with
  | step =>
    rw [run_untraced step cpu (Traced.mk bus #[])]
    exact (cpu.counts_step bus (by simpa [loadsRefresh] using hload)).1
  | interrupt =>
    simp only [run, Cpu.interrupt, advance, acknowledged]
    cases cpu.accepts with
    | false => rfl
    | true => exact counter_acceptInterrupt ⟨cpu.regs, 0, cpu.holdOff, bus⟩
  | nmi haltWait =>
    rw [nmi_run]
    exact counter_acceptNmi ⟨cpu.regs, (nmi haltWait).start cpu, cpu.holdOff, bus⟩

theorem fetches_eq (hload : ¬q.loadsRefresh cpu bus) :
    (q.trace cpu bus).fetches = (List.range (q.fetchCount cpu bus)).map cpu.regs.opcodeCycle := by
  cases q with
  | step => exact (cpu.counts_step bus (by simpa [loadsRefresh] using hload)).2
  | interrupt => exact fetches_eq_nil (by decide)
  | nmi haltWait =>
    have hshape : ∀ shape ∈ [nmiShape], shape.count .fetch = 0 := by decide
    exact fetches_eq_nil hshape

end Request

end Programs

namespace Cpu

variable {σ : Type} [Bus σ]

/-- The processor and its bus after the first `k` requests. -/
def served (start : Cpu × σ) (request : ℕ → Request) : ℕ → Cpu × σ :=
  after start fun k => .request (request k)

section Run

variable {start : Cpu × σ} {request : ℕ → Request} {n : ℕ}
  (hload : ∀ k < n, ¬(request k).loadsRefresh (served start request k).1 (served start request k).2)

include hload

/-- R counts what the requests count in all. -/
theorem counter_served :
    (served start request n).1.regs.counter =
      advanceRefresh^[∑ k ∈ Finset.range n,
        (request k).advance (served start request k).1 (served start request k).2]
        start.1.regs.counter := by
  induction n with
  | zero => rfl
  | succ n ih =>
    have hlast := Request.counter_run (hload n (Nat.lt_succ_self n))
    rw [ih fun k hk => hload k (Nat.lt_succ_of_lt hk)] at hlast
    rw [Finset.sum_range_succ, Nat.add_comm (∑ k ∈ Finset.range n, _), Function.iterate_add_apply]
    exact hlast

/-- What R has counted, against the fetches, the dropped prefixes and the answered interrupts. -/
theorem sum_advance_served :
    let s := served start request
    ∑ k ∈ Finset.range n, (request k).advance (s k).1 (s k).2 +
        Nat.count (fun k => (request k).drops (s k).1 (s k).2) n =
      ∑ k ∈ Finset.range n, ((request k).trace (s k).1 (s k).2).fetches.length +
        Nat.count (fun k => (request k).acknowledged (s k).1) n := by
  have hite (b : Bool) : (if b then 1 else 0) = b.toNat := by cases b <;> rfl
  intro s
  induction n with
  | zero => rfl
  | succ n ih =>
    have hbefore := ih fun k hk => hload k (Nat.lt_succ_of_lt hk)
    have hlast := (request n).advance_add (s n).1 (s n).2
    have hlength := congrArg List.length (Request.fetches_eq (hload n (Nat.lt_succ_self n)))
    rw [List.length_map, List.length_range] at hlength
    simp only [Finset.sum_range_succ, Nat.count_succ, hite, s] at hbefore hlast ⊢
    omega

end Run

/-- The refresh register over a run of steps, maskable and non-maskable interrupts on any bus, none
of which executes LD R,A. Bit 7 of R stays; the other bits advance, modulo 128, by one for every
opcode fetch, less one for every prefix that is dropped, and by one for every interrupt that is
answered. So a step advances them by 2 if it performs an opcode behind a prefix, and by 1 if not.
Every opcode fetch has I and R, as it was before that fetch advanced it, as its refresh address; and
the counter is below 128 from the first advance on. -/
theorem refresh_counted (start : Cpu × σ) (request : ℕ → Request) (n : ℕ)
    (hload : ∀ k < n,
      ¬(request k).loadsRefresh (served start request k).1 (served start request k).2) :
    let s := served start request
    let fetches k := ((request k).trace (s k).1 (s k).2).fetches
    let dropped k := (request k).drops (s k).1 (s k).2
    let acknowledged k := (request k).acknowledged (s k).1
    let fetched k := ∑ i ∈ Finset.range k, (fetches i).length
    (∀ k ≤ n, CountedBy (fetched k - Nat.count (dropped ·) k + Nat.count (acknowledged ·) k)
        start.1.regs (s k).1.regs) ∧
      (∀ k < n, request k = .step →
        CountedBy (if (s k).1.stepKind (s k).2 = .paged then 2 else 1)
          (s k).1.regs (s (k + 1)).1.regs) ∧
      (∀ k < n, fetches k = (List.range (fetches k).length).map (s k).1.regs.opcodeCycle) ∧
      ∀ i k, i < k → k ≤ n → request i = .step ∨ acknowledged i →
        (s k).1.regs.refresh.toNat < 128 := by
  intro s fetches dropped acknowledged fetched
  have hbefore {k : ℕ} (hk : k ≤ n) : ∀ i < k, ¬(request i).loadsRefresh (s i).1 (s i).2 :=
    fun i hi => hload i (Nat.lt_of_lt_of_le hi hk)
  refine ⟨?_, ?_, ?_, ?_⟩
  · intro k hk
    have hcounted := Registers.countedBy_of_counter (counter_served (hbefore hk))
    have hsum := sum_advance_served (hbefore hk)
    have hmoved : (fetched k - Nat.count (dropped ·) k + Nat.count (acknowledged ·) k : ℤ) =
        (∑ i ∈ Finset.range k, (request i).advance (s i).1 (s i).2 : ℕ) := by
      simp only [fetched, fetches, dropped, acknowledged, s] at hsum ⊢
      omega
    rw [hmoved]
    exact hcounted
  · intro k hk hstep
    have hcounted := Registers.countedBy_of_counter (Request.counter_run (hload k hk))
    have hadvance : (request k).advance (s k).1 (s k).2 = ((s k).1.stepKind (s k).2).advance := by
      rw [hstep]
      rfl
    rw [hadvance] at hcounted
    cases hkind : (s k).1.stepKind (s k).2 with
    | single | paged | dropped =>
      rw [hkind] at hcounted
      exact hcounted
  · intro k hk
    have hfetches : fetches k = _ := Request.fetches_eq (hload k hk)
    have hlength := congrArg List.length hfetches
    rw [List.length_map, List.length_range] at hlength
    rw [hlength]
    exact hfetches
  · intro i k hik hk hadvances
    have hpos : 0 < (request i).advance (s i).1 (s i).2 := Request.advance_pos hadvances
    have hle := Finset.single_le_sum (f := fun i => (request i).advance (s i).1 (s i).2)
      (fun _ _ => Nat.zero_le _) (Finset.mem_range.2 hik)
    exact Registers.refresh_lt_of_counter (Nat.lt_of_lt_of_le hpos hle)
      (counter_served (hbefore hk))

/-- R at 126 with bit 7 set, before a dropped prefix, a load, and an instruction behind CB. -/
def refreshing : Cpu × FlatBus :=
  ({ regs := { i := 0x3F, refresh := 0x7E, refreshTop := 0x80, iff1 := true } },
    { ram := Ram.zero.load 0 [0xDD, 0x3E, 0x42, 0xCB, 0x07] })

/-- Three steps, and both kinds of interrupt. -/
def refreshes (k : ℕ) : Request :=
  [.step, .step, .step, .interrupt, .nmi 0].getD k .step

theorem refreshing_counted :
    let s := served refreshing refreshes
    (∀ k < 5, ¬(refreshes k).loadsRefresh (s k).1 (s k).2) ∧
      CountedBy 6 (s 0).1.regs (s 5).1.regs ∧ (s 5).1.regs.refresh.toNat < 128 ∧
      ((refreshes 0).trace (s 0).1 (s 0).2).fetches = [(0x0000, 0x3FFE), (0x0001, 0x3FFF)] := by
  intro s
  have hload : ∀ k < 5, ¬(refreshes k).loadsRefresh (s k).1 (s k).2 := by decide +kernel
  obtain ⟨hcounted, -, hfetches, hbelow⟩ := refresh_counted refreshing refreshes 5 hload
  have hfirst : (List.range 2).map (s 0).1.regs.opcodeCycle =
      [(0x0000, 0x3FFE), (0x0001, 0x3FFF)] := by decide +kernel
  exact ⟨hload, hcounted 5 (Nat.le_refl 5), hbelow 0 5 (by decide) (Nat.le_refl 5) (.inl rfl),
    (hfetches 0 (by decide)).trans hfirst⟩

end Cpu

end Zx81.Z80
