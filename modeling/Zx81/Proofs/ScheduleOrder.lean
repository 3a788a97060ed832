import Mathlib.Data.List.Induction
import Mathlib.Data.List.TakeWhile
import Mathlib.Data.Nat.Find
import Zx81.Keyboard.Schedule

namespace Zx81

def Keyboard.playAll (k : Keyboard) (events : List KeyEvent) : Keyboard :=
  events.foldl (fun k e => k.setKey e.key e.pressed) k

theorem Keyboard.playAll_append (k : Keyboard) (events later : List KeyEvent) :
    k.playAll (events ++ later) = (k.playAll events).playAll later := List.foldl_append

/-- The last event for a key decides whether it is held down. -/
theorem Keyboard.isHeld_playAll (k : Keyboard) (events : List KeyEvent) (row bit : Nat) :
    (k.playAll events).isHeld row bit =
      ((events.filter fun e => e.key.IsAt row bit).getLast?.map KeyEvent.pressed).getD
        (k.isHeld row bit) := by
  induction events using List.reverseRecOn with
  | nil => rfl
  | append_singleton events e ih =>
    have hlast : k.playAll (events ++ [e]) = (k.playAll events).setKey e.key e.pressed := by
      rw [playAll_append]
      rfl
    rw [hlast, isHeld_setKey, ih, List.filter_append]
    by_cases hat : e.key.IsAt row bit
    · simp [hat]
    · simp [hat]

namespace Schedule

theorem due_iff {frame : Nat} {e : KeyEvent} : due frame e ↔ e.frame ≤ frame := by
  simp [due]

/-- Processing a frame after an earlier one is processing it at once. -/
theorem process_process (s : Schedule) (k : Keyboard) {f f' : Nat} (h : f ≤ f') :
    (s.process f k).1.process f' (s.process f k).2 = s.process f' k := by
  have hdue : ∀ e ∈ s.events.takeWhile (due f), due f' e := by
    intro e he
    exact due_iff.2 (Nat.le_trans (due_iff.1 (List.mem_takeWhile_imp he)) h)
  have hdrop : s.events.dropWhile (due f') = (s.events.dropWhile (due f)).dropWhile (due f') := by
    conv_lhs => rw [← List.takeWhile_append_dropWhile (p := due f) (l := s.events)]
    exact List.dropWhile_append_of_pos hdue
  have htake : s.events.takeWhile (due f') = s.events.takeWhile (due f) ++
      (s.events.dropWhile (due f)).takeWhile (due f') := by
    conv_lhs => rw [← List.takeWhile_append_dropWhile (p := due f) (l := s.events)]
    exact List.takeWhile_append_of_pos hdue
  simp only [process, hdrop, htake, List.foldl_append]

theorem insert_eq (e : KeyEvent) (es : List KeyEvent) :
    insert e es = es.takeWhile (due e.frame) ++ e :: es.dropWhile (due e.frame) := by
  induction es with
  | nil => rfl
  | cons x es ih =>
    by_cases hlater : e.frame < x.frame
    · have hnot : due e.frame x = false := by simpa [due] using hlater
      simp [insert, hlater, hnot]
    · have hdue : due e.frame x = true := by simpa [due] using hlater
      simp [insert, hlater, hdue, ih]

inductive Action where
  | push (e : KeyEvent)
  | process (frame : Nat)

def act (s : Schedule × Keyboard) : Action → Schedule × Keyboard
  | .push e => (s.1.push e, s.2)
  | .process frame => s.1.process frame s.2

/-- A new schedule, and a keyboard, after some actions. -/
def after (k : Keyboard) (h : List Action) : Schedule × Keyboard := h.foldl act ({}, k)

/-- An event that was pushed, with the number of the action that pushed it. -/
structure Entry where
  number : Nat
  event : KeyEvent

/-- The order in which events take effect: by frame, and in one frame as they were pushed. -/
def Entry.Before (x y : Entry) : Prop :=
  x.event.frame < y.event.frame ∨ x.event.frame = y.event.frame ∧ x.number < y.number

/-- An event was pushed, and no frame processed since is at or past its own. -/
def Pending (h : List Action) (x : Entry) : Prop :=
  h[x.number]? = some (.push x.event) ∧
    ∀ j frame, x.number < j → h[j]? = some (.process frame) → frame < x.event.frame

/-- Action `j` is the first after the push of an event that processes a frame at or past its
own. -/
def TakenAt (h : List Action) (j : Nat) (x : Entry) : Prop :=
  h[x.number]? = some (.push x.event) ∧ x.number < j ∧
    (∃ frame, h[j]? = some (.process frame) ∧ x.event.frame ≤ frame) ∧
    ∀ i frame, x.number < i → i < j → h[i]? = some (.process frame) → frame < x.event.frame

section History

variable {h : List Action} {x : Entry} {j : Nat}

theorem Pending.number_lt (hx : Pending h x) : x.number < h.length :=
  (List.getElem?_eq_some_iff.1 hx.1).1

theorem takenAt_iff : TakenAt h j x ↔
    ∃ frame, h[j]? = some (.process frame) ∧ Pending (h.take j) x ∧ x.event.frame ≤ frame := by
  constructor
  · rintro ⟨hpush, hlt, ⟨frame, hprocess, hdue⟩, hfirst⟩
    refine ⟨frame, hprocess, ⟨?_, ?_⟩, hdue⟩
    · rwa [List.getElem?_take_of_lt hlt]
    · intro i frame' hi hprocess'
      have hij : i < j := by
        have hlen := (List.getElem?_eq_some_iff.1 hprocess').1
        exact Nat.lt_of_lt_of_le hlen (List.length_take_le j h)
      rw [List.getElem?_take_of_lt hij] at hprocess'
      exact hfirst i frame' hi hij hprocess'
  · rintro ⟨frame, hprocess, hpending, hdue⟩
    have hlt : x.number < j := Nat.lt_of_lt_of_le hpending.number_lt (List.length_take_le j h)
    obtain ⟨hpush, hfirst⟩ := hpending
    rw [List.getElem?_take_of_lt hlt] at hpush
    refine ⟨hpush, hlt, ⟨frame, hprocess, hdue⟩, ?_⟩
    intro i frame' hi hij hprocess'
    apply hfirst i frame' hi
    rwa [List.getElem?_take_of_lt hij]

/-- An event is not taken twice. -/
theorem TakenAt.unique {j' : Nat} (hj : TakenAt h j x) (hj' : TakenAt h j' x) : j = j' := by
  obtain ⟨-, hlt, ⟨frame, hprocess, hdue⟩, hfirst⟩ := hj
  obtain ⟨-, hlt', ⟨frame', hprocess', hdue'⟩, hfirst'⟩ := hj'
  rcases Nat.lt_trichotomy j j' with hbefore | rfl | hbehind
  · have := hfirst' j frame hlt hbefore hprocess
    omega
  · rfl
  · have := hfirst j' frame' hlt' hbehind hprocess'
    omega

/-- An event is taken if a frame at or past its own is processed after the push. -/
theorem exists_takenAt (hpush : h[x.number]? = some (.push x.event)) {frame : Nat}
    (hlt : x.number < j) (hprocess : h[j]? = some (.process frame)) (hdue : x.event.frame ≤ frame) :
    ∃ j', TakenAt h j' x := by
  classical
  have hsome : ∃ j, x.number < j ∧ ∃ frame, h[j]? = some (.process frame) ∧
      x.event.frame ≤ frame := ⟨j, hlt, frame, hprocess, hdue⟩
  obtain ⟨hlt', hdue'⟩ := Nat.find_spec hsome
  refine ⟨Nat.find hsome, hpush, hlt', hdue', ?_⟩
  intro i frame' hi hbefore hprocess'
  by_contra hnot
  exact Nat.find_min hsome hbefore ⟨hi, frame', hprocess', Nat.le_of_not_lt hnot⟩

theorem getElem?_concat_iff {last action : Action} :
    (h ++ [last])[j]? = some action ↔ h[j]? = some action ∨ j = h.length ∧ last = action := by
  rcases Nat.lt_trichotomy j h.length with hbefore | rfl | hbehind
  · rw [List.getElem?_append_left hbefore]
    simp [Nat.ne_of_lt hbefore]
  · simp
  · have hnone : (h ++ [last])[j]? = none := by
      apply List.getElem?_eq_none
      rwa [List.length_append, List.length_singleton]
    simp [hnone, List.getElem?_eq_none (Nat.le_of_lt hbehind), Nat.ne_of_gt hbehind]

theorem pending_concat_push {e : KeyEvent} :
    Pending (h ++ [.push e]) x ↔ Pending h x ∨ x = ⟨h.length, e⟩ := by
  simp only [Pending, getElem?_concat_iff, Action.push.injEq, reduceCtorEq, and_false, or_false]
  constructor
  · rintro ⟨hpush | ⟨hnumber, rfl⟩, hlater⟩
    · exact .inl ⟨hpush, hlater⟩
    · exact .inr (congrArg (Entry.mk · x.event) hnumber)
  · rintro (⟨hpush, hlater⟩ | rfl)
    · exact ⟨.inl hpush, hlater⟩
    · refine ⟨.inr ⟨rfl, rfl⟩, ?_⟩
      intro j frame hlt hprocess
      have hlen := (List.getElem?_eq_some_iff.1 hprocess).1
      exact absurd hlt (Nat.lt_asymm hlen)

theorem pending_concat_process {frame : Nat} :
    Pending (h ++ [.process frame]) x ↔ Pending h x ∧ frame < x.event.frame := by
  simp only [Pending, getElem?_concat_iff, Action.process.injEq, reduceCtorEq, and_false, or_false]
  constructor
  · rintro ⟨hpush, hlater⟩
    have hlt : x.number < h.length := (List.getElem?_eq_some_iff.1 hpush).1
    exact ⟨⟨hpush, fun j f hj hprocess => hlater j f hj (.inl hprocess)⟩,
      hlater h.length frame hlt (.inr ⟨rfl, rfl⟩)⟩
  · rintro ⟨⟨hpush, hlater⟩, hnow⟩
    refine ⟨hpush, ?_⟩
    rintro j f hj (hprocess | ⟨-, rfl⟩)
    · exact hlater j f hj hprocess
    · exact hnow

end History

/-- The events of a schedule, each with the number of its push, after some actions. -/
structure Queues (h : List Action) (pending : List Entry) (s : Schedule) : Prop where
  events : s.events = pending.map Entry.event
  ordered : pending.Pairwise Entry.Before
  mem : ∀ x, x ∈ pending ↔ Pending h x

section Queues

/-- In the order of taking effect, what is due comes first. -/
theorem split_due {pending : List Entry} (h : pending.Pairwise Entry.Before) (frame : Nat) :
    pending.takeWhile (due frame ·.event) = pending.filter (due frame ·.event) ∧
      pending.dropWhile (due frame ·.event) = pending.filter (! due frame ·.event) := by
  induction pending with
  | nil => exact ⟨rfl, rfl⟩
  | cons x pending ih =>
    obtain ⟨hx, hpending⟩ := List.pairwise_cons.1 h
    obtain ⟨htake, hdrop⟩ := ih hpending
    by_cases hdue : due frame x.event
    · simp [hdue, htake, hdrop]
    · have hlater : ∀ y ∈ pending, due frame y.event = false := by
        intro y hy
        have hxy : x.event.frame ≤ y.event.frame := by
          rcases hx y hy with hframe | ⟨hframe, -⟩ <;> omega
        have hnot := mt due_iff.2 hdue
        simp only [due, decide_eq_false_iff_not]
        omega
      have hnone : pending.filter (due frame ·.event) = [] := by
        simpa [List.filter_eq_nil_iff] using hlater
      have hall : pending.filter (! due frame ·.event) = pending := by
        simpa [List.filter_eq_self] using hlater
      simp [hdue, hnone, hall]

variable {h : List Action} {pending : List Entry} {s : Schedule} (hs : Queues h pending s)

include hs

theorem Queues.takeWhile_due (frame : Nat) : s.events.takeWhile (due frame) =
    (pending.filter (due frame ·.event)).map Entry.event := by
  rw [hs.events, List.takeWhile_map]
  exact congrArg (List.map Entry.event) (split_due hs.ordered frame).1

theorem Queues.dropWhile_due (frame : Nat) : s.events.dropWhile (due frame) =
    (pending.filter (! due frame ·.event)).map Entry.event := by
  rw [hs.events, List.dropWhile_map]
  exact congrArg (List.map Entry.event) (split_due hs.ordered frame).2

theorem Queues.push (e : KeyEvent) : ∃ pending', Queues (h ++ [.push e]) pending' (s.push e) := by
  refine ⟨pending.filter (due e.frame ·.event) ++
    ⟨h.length, e⟩ :: pending.filter (! due e.frame ·.event), ?_, ?_, ?_⟩
  · rw [Schedule.push, insert_eq, hs.takeWhile_due, hs.dropWhile_due]
    simp
  · have hearlier : ∀ x ∈ pending.filter (due e.frame ·.event), x.Before ⟨h.length, e⟩ := by
      intro x hx
      obtain ⟨hmem, hdue⟩ := List.mem_filter.1 hx
      have hnumber := ((hs.mem x).1 hmem).number_lt
      exact (Nat.lt_or_eq_of_le (due_iff.1 hdue)).imp_right fun hframe => ⟨hframe, hnumber⟩
    have hlater : ∀ y ∈ pending.filter (! due e.frame ·.event),
        e.frame < y.event.frame := by
      intro y hy
      simpa [due] using (List.mem_filter.1 hy).2
    refine List.pairwise_append.2 ⟨hs.ordered.filter _, ?_, ?_⟩
    · exact List.pairwise_cons.2 ⟨fun y hy => .inl (hlater y hy), hs.ordered.filter _⟩
    · intro x hx y hy
      rcases List.mem_cons.1 hy with rfl | hy
      · exact hearlier x hx
      · have hdue := due_iff.1 (List.mem_filter.1 hx).2
        exact .inl (Nat.lt_of_le_of_lt hdue (hlater y hy))
  · intro x
    rw [pending_concat_push, ← hs.mem]
    simp only [List.mem_append, List.mem_cons, List.mem_filter]
    grind

theorem Queues.process (frame : Nat) (k : Keyboard) : Queues (h ++ [.process frame])
    (pending.filter (! due frame ·.event)) (s.process frame k).1 := by
  refine ⟨hs.dropWhile_due frame, hs.ordered.filter _, ?_⟩
  intro x
  rw [pending_concat_process, ← hs.mem, List.mem_filter]
  simp [due]

end Queues

theorem after_concat (k : Keyboard) (h : List Action) (action : Action) :
    after k (h ++ [action]) = act (after k h) action := by
  simp [after]

theorem exists_queues (k : Keyboard) (h : List Action) :
    ∃ pending, Queues h pending (after k h).1 := by
  induction h using List.reverseRecOn with
  | nil =>
    refine ⟨[], rfl, .nil, ?_⟩
    intro x
    simp [Pending]
  | append_singleton h action ih =>
    obtain ⟨pending, hs⟩ := ih
    rw [after_concat]
    cases action with
    | push e => exact hs.push e
    | process frame => exact ⟨_, hs.process frame _⟩

/-- What one action does to the keyboard: the events taken then take effect in their order. -/
theorem exists_taken (k : Keyboard) (h : List Action) (j : Nat) : ∃ taken : List Entry,
    taken.Pairwise Entry.Before ∧ (∀ x, x ∈ taken ↔ TakenAt h j x) ∧
      (after k (h.take (j + 1))).2 =
        (after k (h.take j)).2.playAll (taken.map Entry.event) := by
  obtain ⟨pending, hs⟩ := exists_queues k (h.take j)
  rw [List.take_add_one]
  cases hj : h[j]? with
  | none =>
    refine ⟨[], .nil, ?_, ?_⟩
    · simp [takenAt_iff, hj]
    · rw [Option.toList_none, List.append_nil]
      rfl
  | some action =>
    rw [Option.toList_some, after_concat]
    cases action with
    | push e =>
      refine ⟨[], .nil, ?_, rfl⟩
      simp [takenAt_iff, hj]
    | process frame =>
      refine ⟨pending.filter (due frame ·.event), hs.ordered.filter _, ?_, ?_⟩
      · intro x
        rw [List.mem_filter, hs.mem, due_iff, takenAt_iff]
        simp [hj]
      · exact congrArg (Keyboard.playAll (after k (h.take j)).2) (hs.takeWhile_due frame)

/-- A schedule is a queue by frames that keeps the order of pushes. However pushes and processed
frames alternate, the pending events lie by frame, and those of one frame as they were pushed. Each
action lets exactly those events take effect, in this order, of which it is the first after the push
that processes a frame at or past theirs; so an event takes effect once, and none does early. A key
is then held down if the last event for it that took effect is a press, and as before if there is
none. Processing one frame after another with no push between is processing the later one alone. -/
theorem schedule_plays_in_order (h : List Action) (k : Keyboard) :
    (∃ pending : List Entry, (after k h).1.events = pending.map Entry.event ∧
        pending.Pairwise Entry.Before ∧ ∀ x, x ∈ pending ↔ Pending h x) ∧
      (∃ taken : Nat → List Entry,
        (∀ j, (taken j).Pairwise Entry.Before ∧ ∀ x, x ∈ taken j ↔ TakenAt h j x) ∧
        ∀ n,
          let played := ((List.range n).flatMap taken).map Entry.event
          (after k (h.take n)).2 = k.playAll played ∧
            ∀ row bit, (after k (h.take n)).2.isHeld row bit =
              ((played.filter fun e => e.key.IsAt row bit).getLast?.map KeyEvent.pressed).getD
                (k.isHeld row bit)) ∧
      (∀ (x : Entry) (j frame : Nat), h[x.number]? = some (.push x.event) → x.number < j →
        h[j]? = some (.process frame) → x.event.frame ≤ frame → ∃! j', TakenAt h j' x) ∧
      ∀ f f', f ≤ f' →
        act (act (after k h) (.process f)) (.process f') = act (after k h) (.process f') := by
  refine ⟨?_, ?_, ?_, ?_⟩
  · obtain ⟨pending, hs⟩ := exists_queues k h
    exact ⟨pending, hs.events, hs.ordered, hs.mem⟩
  · choose taken hordered hmem hplayed using exists_taken k h
    have hall : ∀ n, (after k (h.take n)).2 =
        k.playAll (((List.range n).flatMap taken).map Entry.event) := by
      intro n
      induction n with
      | zero => rfl
      | succ n ih =>
        rw [hplayed, ih, ← Keyboard.playAll_append, List.range_succ, List.flatMap_append,
          List.map_append, List.flatMap_singleton]
    refine ⟨taken, fun j => ⟨hordered j, hmem j⟩, ?_⟩
    intro n played
    refine ⟨hall n, ?_⟩
    intro row bit
    rw [hall n]
    exact k.isHeld_playAll played row bit
  · intro x j frame hpush hlt hprocess hdue
    obtain ⟨j', htaken⟩ := exists_takenAt hpush hlt hprocess hdue
    exact ⟨j', htaken, fun _ hother => hother.unique htaken⟩
  · intro f f' hle
    exact process_process _ _ hle

end Schedule
end Zx81
