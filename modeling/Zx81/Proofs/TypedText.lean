import Zx81.Proofs.ScheduleOrder

namespace Zx81

namespace Schedule

/-- The presses, or the releases, of some keys at a frame. -/
def strikes (keys : List Key) (frame : Nat) (pressed : Bool) : List KeyEvent :=
  keys.map fun key => ⟨frame, key, pressed⟩

theorem frame_of_mem_strikes {keys : List Key} {frame : Nat} {pressed : Bool} {e : KeyEvent}
    (h : e ∈ strikes keys frame pressed) : e.frame = frame := by
  obtain ⟨key, -, rfl⟩ := List.mem_map.1 h
  rfl

theorem strikes_concat (keys : List Key) (key : Key) (frame : Nat) (pressed : Bool) :
    strikes (keys ++ [key]) frame pressed = strikes keys frame pressed ++ [⟨frame, key, pressed⟩] :=
  List.map_append

theorem isHeld_strikes (k : Keyboard) (keys : List Key) (frame : Nat) (pressed : Bool)
    (row bit : Nat) : (k.playAll (strikes keys frame pressed)).isHeld row bit =
      if ∃ key ∈ keys, key.IsAt row bit then pressed else k.isHeld row bit := by
  induction keys using List.reverseRecOn with
  | nil => simp [strikes, Keyboard.playAll]
  | append_singleton keys key ih =>
    have hlast : (k.playAll (strikes (keys ++ [key]) frame pressed)) =
        (k.playAll (strikes keys frame pressed)).setKey key pressed := by
      rw [strikes_concat, Keyboard.playAll_append]
      rfl
    have hany : (∃ key' ∈ keys ++ [key], key'.IsAt row bit) ↔
        key.IsAt row bit ∨ ∃ key' ∈ keys, key'.IsAt row bit := by
      simp [or_and_right, exists_or, or_comm]
    rw [hlast, Keyboard.isHeld_setKey, ih]
    simp only [hany]
    grind

/-- What typing groups of keys from a frame on adds to a schedule. -/
def keystrokes (frame : Nat) : List (List Key) → List KeyEvent
  | [] => []
  | keys :: rest =>
    strikes keys frame true ++ (strikes keys (frame + 3) false ++ keystrokes (frame + 6) rest)

theorem frame_of_mem_keystrokes {frame : Nat} {groups : List (List Key)} {e : KeyEvent}
    (h : e ∈ keystrokes frame groups) :
    frame ≤ e.frame ∧ e.frame < frame + 6 * groups.length := by
  induction groups generalizing frame with
  | nil => cases h
  | cons keys rest ih =>
    simp only [keystrokes, List.mem_append] at h
    rw [List.length_cons]
    rcases h with hpress | hrelease | hrest
    · have := frame_of_mem_strikes hpress
      omega
    · have := frame_of_mem_strikes hrelease
      omega
    · have := ih hrest
      omega

section Typing

theorem insert_between {earlier later : List KeyEvent} {e : KeyEvent}
    (hearlier : ∀ x ∈ earlier, x.frame ≤ e.frame) (hlater : ∀ y ∈ later, e.frame < y.frame) :
    insert e (earlier ++ later) = earlier ++ e :: later := by
  have hdue : ∀ x ∈ earlier, due e.frame x := fun x hx => due_iff.2 (hearlier x hx)
  rw [insert_eq, List.takeWhile_append_of_pos hdue, List.dropWhile_append_of_pos hdue]
  cases later with
  | nil => simp
  | cons y later =>
    have hnot : due e.frame y = false := by simpa [due] using hlater y List.mem_cons_self
    simp [hnot]

variable {s : Schedule} {frame : Nat} (hs : ∀ x ∈ s.events, x.frame ≤ frame)

include hs

/-- Keys pressed together are pressed behind all that is pending, and then released. -/
theorem events_pressKeys (keys : List Key) :
    (s.pressKeys keys frame holdFrames).events =
      s.events ++ (strikes keys frame true ++ strikes keys (frame + 3) false) := by
  induction keys using List.reverseRecOn with
  | nil => simp [pressKeys, strikes]
  | append_singleton keys key ih =>
    have hpressed : ∀ x ∈ s.events ++ strikes keys frame true, x.frame ≤ frame := by
      intro x hx
      rcases List.mem_append.1 hx with hx | hx
      · exact hs x hx
      · exact Nat.le_of_eq (frame_of_mem_strikes hx)
    have hreleased : ∀ y ∈ strikes keys (frame + 3) false, y.frame = frame + 3 :=
      fun y hy => frame_of_mem_strikes hy
    have hpress : insert ⟨frame, key, true⟩
        ((s.events ++ strikes keys frame true) ++ strikes keys (frame + 3) false) =
          (s.events ++ strikes keys frame true) ++
            ⟨frame, key, true⟩ :: strikes keys (frame + 3) false :=
      insert_between hpressed fun y hy => by simp [hreleased y hy]
    have hrelease : insert ⟨frame + 3, key, false⟩
        ((s.events ++ strikes keys frame true) ++
          ⟨frame, key, true⟩ :: strikes keys (frame + 3) false ++ []) =
        ((s.events ++ strikes keys frame true) ++
          ⟨frame, key, true⟩ :: strikes keys (frame + 3) false) ++ [⟨frame + 3, key, false⟩] := by
      apply insert_between
      · intro x hx
        rcases List.mem_append.1 hx with hx | hx
        · exact Nat.le_trans (hpressed x hx) (Nat.le_add_right frame 3)
        · rcases List.mem_cons.1 hx with rfl | hx
          · exact Nat.le_add_right frame 3
          · exact Nat.le_of_eq (hreleased x hx)
      · intro y hy
        cases hy
    have hlast : (s.pressKeys (keys ++ [key]) frame holdFrames).events =
        insert ⟨frame + 3, key, false⟩ (insert ⟨frame, key, true⟩
          (s.pressKeys keys frame holdFrames).events) := by
      rw [pressKeys, List.foldl_append]
      rfl
    rw [List.append_nil] at hrelease
    rw [hlast, ih, ← List.append_assoc, hpress, hrelease, strikes_concat, strikes_concat]
    simp

theorem typeGroups_eq (groups : List (List Key)) : s.typeGroups frame groups =
    (frame + 6 * groups.length, ⟨s.events ++ keystrokes frame groups⟩) := by
  induction groups generalizing s frame with
  | nil => simp [typeGroups, keystrokes]
  | cons keys rest ih =>
    have hnext : frame + holdFrames + gapFrames = frame + 6 := rfl
    have hbefore : ∀ x ∈ (s.pressKeys keys frame holdFrames).events, x.frame ≤ frame + 6 := by
      rw [events_pressKeys hs]
      intro x hx
      simp only [List.mem_append] at hx
      rcases hx with hx | hx | hx
      · have := hs x hx
        omega
      · have := frame_of_mem_strikes hx
        omega
      · have := frame_of_mem_strikes hx
        omega
    rw [typeGroups, hnext, ih hbefore, events_pressKeys hs, List.length_cons]
    simp only [keystrokes, List.append_assoc, Prod.mk.injEq, and_true]
    omega

end Typing

/-- Keys struck at a frame are due from that frame on, and nothing behind them is due earlier. -/
theorem takeWhile_due_strikes {keys : List Key} {pressed : Bool} {frame f : Nat}
    {later : List KeyEvent} (hlater : ∀ e ∈ later, frame ≤ e.frame) :
    (strikes keys frame pressed ++ later).takeWhile (due f) =
      if frame ≤ f then strikes keys frame pressed ++ later.takeWhile (due f) else [] := by
  have hall : ∀ e ∈ strikes keys frame pressed ++ later, frame ≤ e.frame := by
    intro e he
    rcases List.mem_append.1 he with he | he
    · exact Nat.le_of_eq (frame_of_mem_strikes he).symm
    · exact hlater e he
  split
  case isTrue hdue =>
    apply List.takeWhile_append_of_pos
    intro e he
    rwa [due_iff, frame_of_mem_strikes he]
  case isFalse hearly =>
    cases hevents : strikes keys frame pressed ++ later with
    | nil => rfl
    | cons e events =>
      have hfirst : frame ≤ e.frame := hall e (by simp [hevents])
      have hnot : ¬due f e := fun hdue => hearly (Nat.le_trans hfirst (due_iff.1 hdue))
      simp [hnot]

/-- The keys of the group, if there is one, whose three frames a frame lies in. -/
def Typed (frame f : Nat) (groups : List (List Key)) (row bit : Nat) : Prop :=
  ∃ i keys, groups[i]? = some keys ∧ frame + 6 * i ≤ f ∧ f < frame + 6 * i + 3 ∧
    ∃ key ∈ keys, key.IsAt row bit

theorem typed_cons {frame f : Nat} {keys : List Key} {rest : List (List Key)} {row bit : Nat} :
    Typed frame f (keys :: rest) row bit ↔
      (frame ≤ f ∧ f < frame + 3 ∧ ∃ key ∈ keys, key.IsAt row bit) ∨
        Typed (frame + 6) f rest row bit := by
  constructor
  · rintro ⟨i, keys', hi, hfrom, hto, hkey⟩
    cases i with
    | zero =>
      obtain rfl : keys = keys' := Option.some.inj hi
      exact .inl ⟨hfrom, hto, hkey⟩
    | succ i => exact .inr ⟨i, keys', hi, by omega, by omega, hkey⟩
  · rintro (⟨hfrom, hto, hkey⟩ | ⟨i, keys', hi, hfrom, hto, hkey⟩)
    · exact ⟨0, keys, rfl, hfrom, hto, hkey⟩
    · exact ⟨i + 1, keys', hi, by omega, by omega, hkey⟩

theorem Typed.le {frame f : Nat} {groups : List (List Key)} {row bit : Nat}
    (h : Typed frame f groups row bit) : frame ≤ f := by
  obtain ⟨i, -, -, hfrom, -⟩ := h
  omega

/-- The keys held down at a frame are those of the group whose turn it is then. -/
theorem isHeld_keystrokes {k : Keyboard} (hk : ∀ row bit, k.isHeld row bit = false)
    (frame f : Nat) (groups : List (List Key)) (row bit : Nat) :
    (k.playAll ((keystrokes frame groups).takeWhile (due f))).isHeld row bit ↔
      Typed frame f groups row bit := by
  induction groups generalizing k frame with
  | nil => simp [keystrokes, Keyboard.playAll, hk, Typed]
  | cons keys rest ih =>
    have hrest : ∀ e ∈ keystrokes (frame + 6) rest, frame + 6 ≤ e.frame :=
      fun e he => (frame_of_mem_keystrokes he).1
    have hbehindRelease : ∀ e ∈ keystrokes (frame + 6) rest, frame + 3 ≤ e.frame :=
      fun e he => Nat.le_trans (by omega) (hrest e he)
    have hbehindPress : ∀ e ∈ strikes keys (frame + 3) false ++ keystrokes (frame + 6) rest,
        frame ≤ e.frame := by
      intro e he
      rcases List.mem_append.1 he with he | he
      · have := frame_of_mem_strikes he
        omega
      · have := hrest e he
        omega
    rw [typed_cons, keystrokes, takeWhile_due_strikes hbehindPress,
      takeWhile_due_strikes hbehindRelease]
    by_cases hreleased : frame + 3 ≤ f
    case pos =>
      -- nothing is held when the next group is typed
      have hfree : ∀ row bit, ((k.playAll (strikes keys frame true)).playAll
          (strikes keys (frame + 3) false)).isHeld row bit = false := by
        intro row bit
        rw [isHeld_strikes, isHeld_strikes, hk]
        split
        · rfl
        · rfl
      have hpressed : frame ≤ f := by omega
      rw [if_pos hpressed, if_pos hreleased, Keyboard.playAll_append, Keyboard.playAll_append,
        ih hfree]
      simp [Nat.not_lt.mpr hreleased]
    case neg =>
      have hnot : ¬Typed (frame + 6) f rest row bit := fun h => by
        have := h.le
        omega
      rw [if_neg hreleased, List.append_nil]
      by_cases hpressed : frame ≤ f
      case pos =>
        rw [if_pos hpressed, isHeld_strikes, hk]
        simp [hnot, hpressed, Nat.lt_of_not_le hreleased]
      case neg =>
        rw [if_neg hpressed]
        simp [Keyboard.playAll, hk, hnot, hpressed]

def processAll (s : Schedule) (k : Keyboard) (frames : List Nat) : Schedule × Keyboard :=
  frames.foldl (fun s f => s.1.process f s.2) (s, k)

/-- Frames of which none is before an earlier one leave what the last of them leaves alone. -/
theorem processAll_concat (s : Schedule) (k : Keyboard) (earlier : List Nat) (frame : Nat)
    (h : (earlier ++ [frame]).Pairwise (· ≤ ·)) :
    s.processAll k (earlier ++ [frame]) = s.process frame k := by
  induction earlier generalizing s k with
  | nil => rfl
  | cons f earlier ih =>
    obtain ⟨hf, hrest⟩ := List.pairwise_cons.1 h
    have hle : f ≤ frame := hf frame (by simp)
    exact (ih _ _ hrest).trans (process_process s k hle)

/-- A text is played back as it was typed. Typing it from a frame on takes six frames for each
character that can be typed. Whichever frames are then processed, in order, the keys held down are
those of character `i` while the last of them is one of the three frames from `6 * i` on, and
otherwise none; and nothing is pending once a frame behind the text has been processed. -/
theorem typed_text_plays_back (text : String) (start : Nat) (earlier : List Nat) (frame : Nat)
    (h : (earlier ++ [frame]).Pairwise (· ≤ ·)) :
    let typed := ({} : Schedule).typeText text start
    let played := typed.2.processAll {} (earlier ++ [frame])
    let supported := text.toList.filter fun ch => Key.forChar ch ≠ []
    typed.1 = start + 6 * supported.length ∧
      (∀ row bit, played.2.isHeld row bit ↔ ∃ i ch, supported[i]? = some ch ∧
        start + 6 * i ≤ frame ∧ frame < start + 6 * i + 3 ∧
        ∃ key ∈ Key.forChar ch, key.IsAt row bit) ∧
      (typed.1 ≤ frame → played.1.isEmpty) := by
  intro typed played supported
  have hgroups : groupsOfText text.toList = supported.map Key.forChar := by
    rw [groupsOfText, List.filter_map]
    congr 1
    apply List.filter_congr
    intro ch _
    cases hkeys : Key.forChar ch with
    | nil => simp [hkeys]
    | cons key keys => simp [hkeys]
  have htyped : typed = (start + 6 * supported.length,
      ⟨keystrokes start (supported.map Key.forChar)⟩) := by
    have hnothing : ∀ x ∈ ({} : Schedule).events, x.frame ≤ start := fun x hx => nomatch hx
    have hrun := typeGroups_eq hnothing (groupsOfText text.toList)
    rw [hgroups, List.length_map] at hrun
    exact (congrArg (typeGroups {} start) hgroups).trans hrun
  have hplayed : played = typed.2.process frame {} := processAll_concat typed.2 {} earlier frame h
  have hfree : ∀ row bit, ({} : Keyboard).isHeld row bit = false :=
    fun row bit => Keyboard.isHeld_releaseAll {} row bit
  rw [hplayed, htyped]
  refine ⟨rfl, ?_, ?_⟩
  · intro row bit
    have hheld := isHeld_keystrokes hfree start frame (supported.map Key.forChar) row bit
    rw [process]
    refine hheld.trans ?_
    simp [Typed]
  · intro hover
    simp only [process, isEmpty, List.isEmpty_iff, List.dropWhile_eq_nil_iff]
    intro e he
    have hlast := (frame_of_mem_keystrokes he).2
    rw [List.length_map] at hlast
    exact due_iff.2 (Nat.le_of_lt (Nat.lt_of_lt_of_le hlast hover))

/-- A letter, a character that cannot be typed, and a question mark: at frame 7 shift and C are
held down, and the letter is not. -/
theorem question_plays_back :
    ([0, 2] ++ [7]).Pairwise (· ≤ ·) ∧
      let typed := ({} : Schedule).typeText "A#?" 0
      let played := typed.2.processAll {} ([0, 2] ++ [7])
      played.2.isHeld 0 0 ∧ played.2.isHeld 0 3 ∧ ¬played.2.isHeld 1 0 := by
  have hframes : ([0, 2] ++ [7]).Pairwise (· ≤ ·) := by decide
  have hplayed := (typed_text_plays_back "A#?" 0 [0, 2] 7 hframes).2.1
  have hsupported : ("A#?".toList.filter fun ch => Key.forChar ch ≠ []) = ['A', '?'] := by
    decide +kernel
  rw [hsupported] at hplayed
  refine ⟨hframes, ?_, ?_, ?_⟩
  · exact (hplayed 0 0).2 ⟨1, '?', rfl, by decide, by decide, by decide +kernel⟩
  · exact (hplayed 0 3).2 ⟨1, '?', rfl, by decide, by decide, by decide +kernel⟩
  · intro hheld
    obtain ⟨i, ch, hi, hfrom, hto, hkey⟩ := (hplayed 1 0).1 hheld
    obtain rfl : i = 1 := by omega
    obtain rfl : '?' = ch := Option.some.inj hi
    exact absurd hkey (by decide +kernel)

end Schedule
end Zx81
