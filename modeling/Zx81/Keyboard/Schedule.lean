import Zx81.Config.Basic
import Zx81.Keyboard.Matrix

namespace Zx81

structure KeyEvent where
  frame : Nat
  key : Key
  pressed : Bool
  deriving DecidableEq

/-- The pending events in the order in which they take effect. -/
structure Schedule where
  events : List KeyEvent := []
  deriving DecidableEq

namespace Schedule

/-- Adds an event behind all that are not later. -/
def insert (e : KeyEvent) : List KeyEvent → List KeyEvent
  | [] => [e]
  | x :: xs => if e.frame < x.frame then e :: x :: xs else x :: insert e xs

def push (s : Schedule) (e : KeyEvent) : Schedule := ⟨insert e s.events⟩

/-- Frames for which a typed key is held down. -/
def holdFrames : Nat := 3

/-- Frames from the release of a typed key to the next key. -/
def gapFrames : Nat := 3

/-- Presses keys at a frame and releases them `hold` frames later. -/
def pressKeys (s : Schedule) (keys : List Key) (frame hold : Nat) : Schedule :=
  keys.foldl (fun s key => (s.push ⟨frame, key, true⟩).push ⟨frame + hold, key, false⟩) s

/-- Types groups of keys one after the other. The answer is the first frame after them. -/
def typeGroups (s : Schedule) (frame : Nat) : List (List Key) → Nat × Schedule
  | [] => (frame, s)
  | keys :: rest =>
    typeGroups (s.pressKeys keys frame holdFrames) (frame + holdFrames + gapFrames) rest

/-- The groups of keys that type a text; characters that cannot be typed are passed over. -/
def groupsOfText (text : List Char) : List (List Key) :=
  (text.map Key.forChar).filter (! ·.isEmpty)

def typeText (s : Schedule) (text : String) (frame : Nat) : Nat × Schedule :=
  s.typeGroups frame (groupsOfText text.toList)

/-- The groups of keys of the command that loads a program from tape. -/
def loadCommand : Model → List (List Key)
  | .zx81 => [[.j], [.shift, .p], [.shift, .p], [.newLine]]
  | .zx80 => [[.w], [.newLine]]

def typeLoadCommand (s : Schedule) (model : Model) (frame : Nat) : Nat × Schedule :=
  s.typeGroups frame (loadCommand model)

def due (frame : Nat) (e : KeyEvent) : Bool := e.frame ≤ frame

/-- Lets all events due by a frame take effect on a keyboard, and drops them. -/
def process (s : Schedule) (frame : Nat) (k : Keyboard) : Schedule × Keyboard :=
  (⟨s.events.dropWhile (due frame)⟩,
   (s.events.takeWhile (due frame)).foldl (fun k e => k.setKey e.key e.pressed) k)

def length (s : Schedule) : Nat := s.events.length

def isEmpty (s : Schedule) : Bool := s.events.isEmpty

@[simp] theorem length_insert (e : KeyEvent) (es : List KeyEvent) :
    (insert e es).length = es.length + 1 := by
  induction es with
  | nil => rfl
  | cons x xs ih =>
    by_cases h : e.frame < x.frame
    · simp [insert, h]
    · simp [insert, h, ih]

@[simp] theorem length_push (s : Schedule) (e : KeyEvent) :
    (s.push e).length = s.length + 1 := length_insert e s.events

end Schedule
end Zx81
