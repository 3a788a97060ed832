import Zx81.Tape.Loading

namespace Zx81

namespace Tape

theorem code_lt {c first last : Char} {base : UInt8} (hlast : c ≤ last)
    (hroom : base.toNat + (last.toNat - first.toNat) < 128) :
    base + UInt8.ofNat (c.toNat - first.toNat) < 0x80 := by
  have hle : c.toNat ≤ last.toNat := Char.le_def.mp hlast
  have hmark : (0x80 : UInt8).toNat = 128 := rfl
  rw [UInt8.lt_iff_toNat_lt, UInt8.toNat_add, UInt8.toNat_ofNat']
  omega

theorem charCode_lt (ch : Char) : charCode ch < 0x80 := by
  have hsigns : ∀ sign ∈ signs, sign.2 < 0x80 := by decide
  unfold charCode
  simp only
  split
  case isTrue hdigit => exact code_lt hdigit.2 (by decide)
  case isFalse =>
    split
    case isTrue hletter => exact code_lt hletter.2 (by decide)
    case isFalse =>
      cases hsign : signs.lookup ch.toUpper with
      | none => decide
      | some v =>
        obtain ⟨before, after, hsplit, -⟩ := List.lookup_eq_some_iff.mp hsign
        exact hsigns (ch.toUpper, v) (by simp [hsplit])

theorem le_or_nameEnd (v : UInt8) : 0x80 ≤ v ||| nameEnd := by
  rw [UInt8.le_iff_toNat_le, UInt8.toNat_or]
  exact Nat.right_le_or

theorem length_markLast_pos (codes : List UInt8) : 0 < (markLast codes).length := by
  rcases codes with _ | ⟨v, _ | ⟨w, codes⟩⟩ <;> simp [markLast]

/-- Of codes without the mark, only the last byte written has it. -/
theorem findIdx?_markLast (codes image : List UInt8) (h : ∀ v ∈ codes, v < 0x80) :
    (markLast codes ++ image).findIdx? (fun v => 0x80 ≤ v) =
      some ((markLast codes).length - 1) := by
  induction codes with
  | nil => rfl
  | cons v codes ih =>
    cases codes with
    | nil =>
      have hmarked : 0x80 ≤ v ||| nameEnd := le_or_nameEnd v
      rw [markLast, List.singleton_append, List.findIdx?_cons, decide_eq_true hmarked]
      rfl
    | cons w codes =>
      have hv : ¬0x80 ≤ v := UInt8.not_le.mpr (h v (by simp))
      have hrest := ih fun x hx => h x (by simp [hx])
      have hpos := length_markLast_pos (w :: codes)
      rw [markLast, List.cons_append, List.findIdx?_cons, decide_eq_false hv, hrest]
      simp only [Bool.false_eq_true, if_false, Option.map_some, List.length_cons]
      rw [Nat.sub_add_cancel hpos, Nat.add_sub_cancel]

theorem drop_markLast (codes image : List UInt8) (h : ∀ v ∈ codes, v < 0x80) :
    (markLast codes ++ image).drop (nameLength (markLast codes ++ image)) = image := by
  have hlength : nameLength (markLast codes ++ image) = (markLast codes).length := by
    unfold nameLength
    rw [findIdx?_markLast codes image h]
    exact Nat.sub_add_cancel (length_markLast_pos codes)
  rw [hlength, List.drop_left]

/-- What is recorded on a tape at once. -/
inductive Recording where
  | record (bytes : List UInt8)
  | program (name : String) (image : List UInt8)
  | zx80Program (image : List UInt8)

namespace Recording

/-- The program in a recording that was made of one. -/
def image? : Recording → Option (List UInt8)
  | record _ => none
  | program _ image => some image
  | zx80Program image => some image

def bytes : Recording → List UInt8
  | record bytes => bytes
  | program name image => encodeName name ++ image
  | zx80Program image => nameEnd :: image

theorem drop_nameLength {recording : Recording} {image : List UInt8}
    (h : recording.image? = some image) :
    recording.bytes.drop (nameLength recording.bytes) = image := by
  cases recording with
  | record bytes => cases h
  | program name =>
    cases h
    apply drop_markLast
    intro v hv
    obtain ⟨ch, -, rfl⟩ := List.mem_map.mp hv
    exact charCode_lt ch
  | zx80Program =>
    cases h
    exact drop_markLast [] image (by simp)

end Recording

inductive Use where
  | insert (recording : Recording)
  | take
  | eject

def insert (t : Tape) : Recording → Tape
  | .record bytes => t.push bytes
  | .program name image => t.pushProgram name image
  | .zx80Program image => t.pushZx80Program image

def perform (t : Tape) : Use → Tape
  | .insert recording => t.insert recording
  | .take => (t.next?.map Prod.snd).getD t
  | .eject => t.eject

/-- The recordings still to be read after something was done with the tape. -/
def waiting (recordings : List Recording) : Use → List Recording
  | .insert recording => recordings ++ [recording]
  | .take => recordings.tail
  | .eject => []

theorem records_insert (t : Tape) (recording : Recording) :
    (t.insert recording).records = t.records ++ [recording.bytes] := by
  cases recording <;> rfl

theorem records_perform {t : Tape} {recordings : List Recording}
    (h : t.records = recordings.map Recording.bytes) (use : Use) :
    (t.perform use).records = (waiting recordings use).map Recording.bytes := by
  cases use with
  | insert recording =>
    change (t.insert recording).records = (recordings ++ [recording]).map Recording.bytes
    rw [records_insert, h, List.map_append, List.map_singleton]
  | take =>
    obtain ⟨records⟩ := t
    cases recordings <;> simp_all [perform, waiting, next?]
  | eject => rfl

/-- A tape holds what was recorded on it, in order, and has not been read yet. -/
theorem records_performAll {t : Tape} {recordings : List Recording}
    (h : t.records = recordings.map Recording.bytes) (uses : List Use) :
    (uses.foldl perform t).records = (uses.foldl waiting recordings).map Recording.bytes := by
  induction uses generalizing t recordings with
  | nil => exact h
  | cons use uses ih => exact ih (records_perform h use)

end Tape

namespace Memory

/-- An address that reaches the cell of its own number, which takes writes. -/
structure Open (m : Memory) (a : UInt16) : Prop where
  decode : m.decode a = a
  writable : m.isProtected a = false

theorem Open.write {m : Memory} {b : UInt16} (h : m.Open b) (a : UInt16) (v : UInt8) :
    (m.write a v).Open b := by
  constructor
  · rw [decode_write, h.decode]
  · rw [isProtected_write, h.writable]

/-- Above the ROM, and above where it may repeat, up to the top of RAM. -/
theorem open_of_le {m : Memory} {a : UInt16} (hrom : m.romTop < a) (hshadow : shadowEnd < a)
    (hram : a ≤ m.ramTop) : m.Open a := by
  have hfold : m.foldRam a = a := if_neg (UInt16.not_lt.mpr hram)
  have hrepeat : ¬(m.shadowRom ∧ m.romTop < a ∧ a ≤ shadowEnd) := fun h =>
    UInt16.not_le.mpr hshadow h.2.2
  constructor
  · rw [decode, hfold]
    exact if_neg hrepeat
  · simp [isProtected, hrom]

/-- The bytes of a program in memory, and everything else as it was before. -/
structure Stored (d : UInt16) (image : List UInt8) (m m' : Memory) : Prop where
  program : ∀ i (h : i < image.length), m'.read (d + UInt16.ofNat i) = image[i]
  others : ∀ cell : UInt16, ¬(d ≤ cell ∧ cell.toNat < d.toNat + image.length) →
    m'.ram.get cell = m.ram.get cell

end Memory

namespace LoadEntry

open Memory (Open)

/-- Bytes written to addresses that are open are stored in the cells of these numbers. -/
theorem store_eq_load {m : Memory} {a : UInt16} {bytes : List UInt8}
    (h : ∀ i < bytes.length, m.Open (a + UInt16.ofNat i)) : store m a bytes = m.load a bytes := by
  induction bytes generalizing m a with
  | nil => rfl
  | cons v bytes ih =>
    have hfirst : m.Open a := by simpa using h 0 (by simp)
    have hwrite : m.write a v = m.mapRam (·.set a v) := by
      simp [Memory.write, hfirst.decode, hfirst.writable]
    have hrest : ∀ i < bytes.length, (m.write a v).Open (a + 1 + UInt16.ofNat i) := by
      intro i hi
      have hlater := h (i + 1) (by simpa using hi)
      rw [Ram.add_ofNat_succ] at hlater
      exact hlater.write a v
    rw [store, ih hrest, hwrite]
    rfl

theorem shadowEnd_lt {e : LoadEntry} (he : e ∈ all) : Memory.shadowEnd < e.destination := by
  have hall : ∀ e ∈ all, Memory.shadowEnd < e.destination := by decide
  exact hall e he

/-- A program that fits between ROM and the top of RAM is stored whole, and nothing else is. -/
theorem stored {e : LoadEntry} (he : e ∈ all) {m : Memory} {image : List UInt8}
    (hrom : m.romTop < e.destination)
    (hram : e.destination.toNat + image.length - 1 ≤ m.ramTop.toNat) :
    m.Stored e.destination image (store m e.destination image) := by
  have hshadow := UInt16.lt_iff_toNat_lt.mp (shadowEnd_lt he)
  have hrom := UInt16.lt_iff_toNat_lt.mp hrom
  have htop := m.ramTop.toNat_lt
  have hplace {i : Nat} (hi : i < image.length) :
      (e.destination + UInt16.ofNat i).toNat = e.destination.toNat + i := by
    rw [UInt16.toNat_add, UInt16.toNat_ofNat']
    omega
  have hopen : ∀ i < image.length, m.Open (e.destination + UInt16.ofNat i) := by
    intro i hi
    apply Memory.open_of_le
    · rw [UInt16.lt_iff_toNat_lt, hplace hi]
      omega
    · rw [UInt16.lt_iff_toNat_lt, hplace hi]
      omega
    · rw [UInt16.le_iff_toNat_le, hplace hi]
      omega
  rw [store_eq_load hopen]
  constructor
  · intro i hi
    change (m.ram.load e.destination image).get (m.decode (e.destination + UInt16.ofNat i)) = _
    rw [(hopen i hi).decode]
    exact m.ram.get_load e.destination image (by omega) hi
  · intro cell hcell
    apply m.ram.get_load_of_ne
    rintro i hi rfl
    apply hcell
    rw [UInt16.le_iff_toNat_le, hplace hi]
    omega

theorem isSome_at? (m : Memory) (pc : UInt16) :
    (at? m pc).isSome ↔
      pc = 0x0356 ∧ m.read pc = 0x1F ∨ pc = 0x0222 ∧ m.read pc = 0x3E := by
  unfold at?
  rw [List.find?_isSome]
  simp [all, zx81, zx80, @eq_comm _ _ pc]

theorem mem_of_at? {m : Memory} {pc : UInt16} {e : LoadEntry} (h : at? m pc = some e) :
    e ∈ all ∧ e.pc = pc := by
  have htest := List.find?_some h
  rw [Bool.and_eq_true, beq_iff_eq] at htest
  exact ⟨List.mem_of_find?_eq_some h, htest.1⟩

end LoadEntry

namespace Loading

open Tape (Use Recording)

/-- Loading takes place at a loading routine with a record on the tape, and nowhere else. -/
theorem run_cases (before : Loading) :
    (before.run.1 = false ∧ before.run.2 = before ∧
        (LoadEntry.at? before.memory before.cpu.regs.pc = none ∨ before.tape.records = [])) ∨
      ∃ e record rest, LoadEntry.at? before.memory before.cpu.regs.pc = some e ∧
        before.tape.records = record :: rest ∧
        before.run = (true, ⟨e.leave before.cpu, e.put before.memory record, ⟨rest⟩⟩) := by
  obtain ⟨cpu, memory, ⟨records⟩⟩ := before
  cases hat : LoadEntry.at? memory cpu.regs.pc with
  | none =>
    left
    simp [run, hat]
  | some e =>
    cases records with
    | nil =>
      left
      simp [run, hat, Tape.next?]
    | cons record rest =>
      right
      exact ⟨e, record, rest, rfl, rfl, by simp [run, hat, Tape.next?]⟩

/-- Loading takes place exactly when the processor is at the start of a loading routine, its opcode
is there, and a record is on the tape. Otherwise nothing changes. A load takes the first record and
changes PC and SP of the processor. If that record was made of a program, the bytes written are
those of the program, none of its name among them; and if they fit between ROM and the top of RAM,
they are read back from the routine's destination on and no other cell has changed. -/
theorem program_loads (before : Loading) :
    let r := before.cpu.regs
    let m := before.memory
    let after := before.run.2
    (before.run.1 = true ↔
      (r.pc = 0x0356 ∧ m.read r.pc = 0x1F ∨ r.pc = 0x0222 ∧ m.read r.pc = 0x3E) ∧
        before.tape.isEmpty = false) ∧
    (before.run.1 = false → after = before) ∧
    (before.run.1 = true → ∃ e ∈ LoadEntry.all, e.pc = r.pc ∧
      (∃ record, before.tape.records = record :: after.tape.records) ∧
      after.cpu = { before.cpu with regs := { r with pc := e.resume, sp := r.sp + 2 } } ∧
      ∀ (uses : List Use) (recording : Recording) (others : List Recording) (image : List UInt8),
        before.tape = uses.foldl Tape.perform {} →
        uses.foldl Tape.waiting [] = recording :: others → recording.image? = some image →
        after.memory = LoadEntry.store m e.destination image ∧
        (m.romTop < e.destination → e.destination.toNat + image.length - 1 ≤ m.ramTop.toNat →
          m.Stored e.destination image after.memory)) := by
  intro r m after
  have hroutine := LoadEntry.isSome_at? m r.pc
  rcases before.run_cases with ⟨hnot, hsame, hwhy⟩ | ⟨e, record, rest, hat, hrecords, hrun⟩
  · refine ⟨?_, fun _ => hsame, fun hload => absurd (hnot.symm.trans hload) (by decide)⟩
    constructor
    · intro hload
      exact absurd (hnot.symm.trans hload) (by decide)
    · rintro ⟨hentry, htape⟩
      rcases hwhy with hnone | hempty
      · have hsome := hroutine.mpr hentry
        rw [hnone] at hsome
        cases hsome
      · rw [Tape.isEmpty, hempty] at htape
        cases htape
  · have hafter : after = ⟨e.leave before.cpu, e.put m record, ⟨rest⟩⟩ := congrArg Prod.snd hrun
    obtain ⟨he, hpc⟩ := LoadEntry.mem_of_at? hat
    refine ⟨?_, ?_, ?_⟩
    · rw [hrun]
      refine ⟨fun _ => ⟨hroutine.mp (by rw [hat]; rfl), ?_⟩, fun _ => rfl⟩
      rw [Tape.isEmpty, hrecords]
      rfl
    · rw [hrun]
      intro hload
      cases hload
    · intro _
      refine ⟨e, he, hpc, ⟨record, ?_⟩, ?_, ?_⟩
      · rw [hafter, hrecords]
      · rw [hafter]
        rfl
      · intro uses recording others image htape hwaiting himage
        have hblank : ({} : Tape).records = [].map Recording.bytes := rfl
        have hmade := Tape.records_performAll hblank uses
        rw [← htape, hrecords, hwaiting, List.map_cons, List.cons.injEq] at hmade
        have hbytes : after.memory = LoadEntry.store m e.destination image := by
          rw [hafter]
          change LoadEntry.store m e.destination (record.drop (Tape.nameLength record)) = _
          rw [hmade.1, Recording.drop_nameLength himage]
        refine ⟨hbytes, ?_⟩
        rw [hbytes]
        exact LoadEntry.stored he

/-- A program of two bytes, one of them with the mark, under a name with a character that has no
code of its own. -/
def insertion : List Use := [.insert (.program "né" [0x91, 0x12])]

def atRoutine : Loading where
  cpu := { regs := { pc := 0x0356, sp := 0x7FF0 } }
  memory := (Memory.ofConfig {}).load 0x0356 [0x1F]
  tape := insertion.foldl Tape.perform {}

theorem atRoutine_loads :
    atRoutine.run.1 = true ∧ atRoutine.run.2.cpu.regs.sp = 0x7FF2 ∧
      atRoutine.run.2.memory.read 0x4009 = 0x91 ∧ atRoutine.run.2.memory.read 0x400A = 0x12 := by
  have hload : atRoutine.run.1 = true := by decide +kernel
  obtain ⟨e, he, hpc, -, hcpu, hprogram⟩ := (program_loads atRoutine).2.2 hload
  have hroutine : e = .zx81 := by
    simp only [LoadEntry.all, List.mem_cons, List.not_mem_nil, or_false] at he
    rcases he with rfl | rfl
    · rfl
    · cases hpc
  subst hroutine
  obtain ⟨-, hfits⟩ := hprogram insertion _ [] [0x91, 0x12] rfl rfl rfl
  have hstored := hfits (by decide) (by decide)
  refine ⟨hload, by rw [hcpu]; rfl, hstored.program 0 (by decide), hstored.program 1 (by decide)⟩

end Loading
end Zx81
