import Mathlib.Logic.Function.Iterate
import Zx81.Video.Ula

namespace Zx81.Video

namespace ShiftRegister

theorem shiftOut_fst (lit : Bool) (n : Nat) (r : ShiftRegister) (line : Scanline) :
    (shiftOut lit n r line).1 = next^[n] r := by
  induction n generalizing r line with
  | zero => rfl
  | succ n ih => exact ih r.next _

/-- Samples sent out change nothing of a line but its samples, and fill it at most. -/
theorem shiftOut_snd (lit : Bool) (n : Nat) (r : ShiftRegister) (line : Scanline) :
    (shiftOut lit n r line).2.syncLength = line.syncLength ∧
      (shiftOut lit n r line).2.sync = line.sync ∧
      (shiftOut lit n r line).2.length =
        max line.length (min (line.length + n) Scanline.capacity) := by
  induction n generalizing r line with
  | zero =>
    have hle := Nat.min_le_left line.length Scanline.capacity
    exact ⟨rfl, rfl, (Nat.max_eq_left hle).symm⟩
  | succ n ih =>
    obtain ⟨hlength, hsync, hsize⟩ := ih r.next (line.push (r.colour lit))
    refine ⟨hlength, hsync, hsize.trans ?_⟩
    rw [Scanline.length_push]
    generalize Scanline.capacity = capacity
    split <;> omega

end ShiftRegister

namespace Ula

/-- Draws what an instruction of some T-states shows, and acts upon its port access. -/
def draw (tstates : Nat) (u : Ula) (line : Scanline) : Ula × Scanline :=
  let sent := u.emit line tstates
  let applied := sent.1.applyEvent sent.2
  applied.1.count applied.2 tstates

/-- Ends a line that is over, after a non-maskable interrupt of some T-states. -/
def close (nmi : Nat) (u : Ula) (line : Scanline) : Ula × Scanline :=
  if u.expired then (u.charge nmi).endLine line else (u, line)

/-- The sync generator after the noted port access. -/
def litAfter (u : Ula) : Bool :=
  match u.event with
  | some (.output _) => true
  | some (.input _) => u.lit && u.nmi
  | none => u.lit

/-- The NMI generator after the noted port access. -/
def nmiNext (u : Ula) : Bool :=
  match u.event with
  | some (.output port) => u.nmiAfter port
  | _ => u.nmi

/-- The noted port access lights a dark picture. -/
def lightsUp (u : Ula) : Bool := !u.lit && u.litAfter

/-- The row counter after the noted port access: it starts again when the picture is lit. -/
def rowNext (u : Ula) : Fin 8 := if u.lightsUp then firstRow else u.row

section Draw

variable (t : Nat) (u : Ula) (line : Scanline)

theorem emit_fst : (u.emit line t).1 = { u with shift := ShiftRegister.next^[2 * t] u.shift } := by
  rw [← ShiftRegister.shiftOut_fst u.lit (2 * t) u.shift line]
  rfl

/-- What a port access does to the chip. -/
theorem applyEvent_fst : (u.applyEvent line).1 =
    { u with lit := u.litAfter, nmi := u.nmiNext, row := u.rowNext, event := none } := by
  obtain ⟨lineLength, shift, lit, nmi, counter, borrow, row, event⟩ := u
  match event with
  | some (.output port) => cases lit <;> rfl
  | some (.input port) => cases lit <;> cases nmi <;> rfl
  | none => cases lit <;> rfl

/-- A port access does nothing to a line but to end it. -/
theorem applyEvent_snd : (u.applyEvent line).2 =
    { line with
      sync := if u.lightsUp ∧ 0 < line.syncLength then .vertical else line.sync } := by
  unfold applyEvent lightsUp litAfter
  cases u.event with
  | none => cases u.lit <;> simp
  | some event =>
    cases event with
    | input port => cases u.lit <;> simp
    | output port => cases u.lit <;> by_cases h : 0 < line.syncLength <;> simp [h, Scanline.endWith]

theorem emit_snd : ∃ samples, (u.emit line t).2 = { line with samples } ∧
    samples.size = max line.length (min (line.length + 2 * t) Scanline.capacity) := by
  obtain ⟨hlength, hsync, hsize⟩ := ShiftRegister.shiftOut_snd u.lit (2 * t) u.shift line
  refine ⟨(u.emit line t).2.samples, ?_, hsize⟩
  rw [← hlength, ← hsync]
  rfl

theorem count_snd : (u.count line t).2 =
    { line with
      syncLength :=
        if u.lit then line.syncLength else min (line.syncLength + t) Scanline.longestSync } := by
  unfold count
  cases u.lit <;> rfl

/-- What an instruction leaves of the chip. -/
theorem draw_fst : (draw t u line).1 =
    { u with
      shift := ShiftRegister.next^[2 * t] u.shift, lit := u.litAfter, nmi := u.nmiNext,
      counter := u.counter - .ofNat t, row := u.rowNext, event := none } := by
  unfold draw count
  simp only [applyEvent_fst, emit_fst]
  rfl

/-- What an instruction leaves of the line. -/
theorem draw_line : (draw t u line).2 =
    ⟨(u.emit line t).2.samples,
      if u.litAfter then line.syncLength else min (line.syncLength + t) Scanline.longestSync,
      if u.lightsUp ∧ 0 < line.syncLength then .vertical else line.sync⟩ := by
  obtain ⟨samples, hsent, -⟩ := emit_snd t u line
  unfold draw
  simp only [count_snd, applyEvent_snd, applyEvent_fst, emit_fst, hsent]
  rfl

/-- What an instruction leaves of the line, but for the colours of its samples. -/
theorem draw_snd : ∃ samples, (draw t u line).2 =
      ⟨samples,
        if u.litAfter then line.syncLength
        else min (line.syncLength + t) Scanline.longestSync,
        if u.lightsUp ∧ 0 < line.syncLength then .vertical else line.sync⟩ ∧
    samples.size = max line.length (min (line.length + 2 * t) Scanline.capacity) := by
  obtain ⟨samples, hsent, hsize⟩ := emit_snd t u line
  refine ⟨samples, ?_, hsize⟩
  rw [draw_line, hsent]

theorem counter_draw (ht : t < 0x80000000) (h : -0x80000000 ≤ u.counter.toInt - t) :
    (draw t u line).1.counter.toInt = u.counter.toInt - t := by
  rw [draw_fst]
  exact toInt_sub_ofNat ht h

theorem lineLength_draw : (draw t u line).1.lineLength = u.lineLength := by rw [draw_fst]

end Draw

section Close

variable (n : Nat) {u : Ula} {line : Scanline}

theorem close_of_running (h : u.expired = false) : close n u line = (u, line) := by
  simp [close, h]

/-- What the end of a line does to the timer, in a pulse or not. -/
theorem close_timer (line : Scanline) (hexpired : u.expired) (hn : n < 0x80000000)
    (hlength : u.lineLength < 0x80000000) (h : -0x80000000 < u.counter.toInt - n) :
    (close n u line).1.lineLength = u.lineLength ∧
      (close n u line).1.counter.toInt = u.counter.toInt - n + u.lineLength ∧
      ((close n u line).1.borrow : Int) = n - u.counter.toInt := by
  have hover := expired_iff.mp hexpired
  have hcharged : (u.charge n).counter.toInt = u.counter.toInt - n :=
    toInt_sub_ofNat hn (by omega)
  have hagain := toInt_add_ofNat (x := (u.charge n).counter) hlength (by omega)
  have hcarried := toNatClampNeg_neg (x := (u.charge n).counter) (by omega)
  have hends : (close n u line).1.lineLength = u.lineLength ∧
      (close n u line).1.counter = (u.charge n).counter + .ofNat u.lineLength ∧
      (close n u line).1.borrow = (-(u.charge n).counter).toNatClampNeg := by
    rw [close, if_pos hexpired, endLine]
    split
    · exact ⟨rfl, rfl, rfl⟩
    · exact ⟨rfl, rfl, rfl⟩
  obtain ⟨hsame, hcounter, hborrow⟩ := hends
  refine ⟨hsame, ?_, ?_⟩
  · rw [hcounter, hagain, hcharged]
  · rw [hborrow, hcarried, hcharged]
    omega

/-- A line that the timer ends. -/
theorem close_of_timed (hexpired : u.expired) (hlit : u.lit) (hpulse : line.syncLength = 0) :
    ∃ row samples, close n u line =
        ({ u with
            row, counter := u.counter - .ofNat n + .ofNat u.lineLength,
            borrow := (-(u.counter - .ofNat n)).toNatClampNeg },
          ⟨samples, shortestSync, .horizontal⟩) ∧
      samples.size = min (2 * u.lineLength) line.length := by
  have htimed : (u.charge n).lit ∧ line.syncLength = 0 := ⟨hlit, hpulse⟩
  refine ⟨rowAfter u.row, line.samples.take (2 * u.lineLength), ?_, ?_⟩
  · rw [close, if_pos hexpired, endLine, if_pos htimed]
    rfl
  · simp [Scanline.length]

/-- The timer does not end the line in a pulse of the program's own. -/
theorem close_of_pulse (h : ¬(u.lit ∧ line.syncLength = 0)) :
    ∃ counter borrow, close n u line = ({ u with counter, borrow }, line) := by
  by_cases hexpired : u.expired
  · have hpulse : ¬((u.charge n).lit ∧ line.syncLength = 0) := h
    rw [close, if_pos hexpired, endLine, if_neg hpulse]
    exact ⟨_, _, rfl⟩
  · rw [close, if_neg hexpired]
    exact ⟨u.counter, u.borrow, rfl⟩

/-- A line is closed as it is or with the pulse of the timer. -/
theorem close_snd (u : Ula) (line : Scanline) :
    (close n u line).2 = line ∨ (close n u line).2.sync = .horizontal := by
  by_cases hpulse : u.lit ∧ line.syncLength = 0
  · by_cases hexpired : u.expired
    · obtain ⟨row, samples, h, -⟩ := close_of_timed n hexpired hpulse.1 hpulse.2
      exact .inr (by rw [h])
    · exact .inl (by rw [close_of_running n (by simpa using hexpired)])
  · obtain ⟨counter, borrow, h⟩ := close_of_pulse n hpulse
    exact .inl (by rw [h])

theorem lineLength_endLine (u : Ula) (line : Scanline) :
    (u.endLine line).1.lineLength = u.lineLength := by
  unfold endLine
  simp only
  split <;> rfl

/-- The end of a line changes the timer and the row counter only. -/
theorem close_fst (u : Ula) (line : Scanline) :
    ∃ counter borrow row, (close n u line).1 = { u with counter, borrow, row } := by
  by_cases hpulse : u.lit ∧ line.syncLength = 0
  · by_cases hexpired : u.expired
    · obtain ⟨row, samples, h, -⟩ := close_of_timed n hexpired hpulse.1 hpulse.2
      exact ⟨_, _, row, congrArg Prod.fst h⟩
    · have h : close n u line = (u, line) := close_of_running n (by simpa using hexpired)
      exact ⟨u.counter, u.borrow, u.row, congrArg Prod.fst h⟩
  · obtain ⟨counter, borrow, h⟩ := close_of_pulse n hpulse
    exact ⟨counter, borrow, u.row, congrArg Prod.fst h⟩

theorem close_generators (u : Ula) (line : Scanline) :
    (close n u line).1.lit = u.lit ∧ (close n u line).1.nmi = u.nmi := by
  obtain ⟨counter, borrow, row, h⟩ := close_fst n u line
  rw [h]
  exact ⟨rfl, rfl⟩

end Close

end Ula
end Zx81.Video
