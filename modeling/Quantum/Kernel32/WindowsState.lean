import Mathlib.Data.List.AList

/-!
# Windows and their message queues

The tables behind `user32`: the registered classes, and the windows with a FIFO of pending messages
each.  A `HashMap` is an association list whose order means nothing: where the code iterates over it,
the order is an argument, and any order of the keys will do.

Names arrive here as strings, decoded from UTF-16 by the caller.
-/

namespace Quantum.Kernel32.Windows

abbrev Hwnd := BitVec 64

structure PendingMsg where
  hwnd : Hwnd
  message : BitVec 32
  wparam : BitVec 64
  lparam : BitVec 64
  deriving DecidableEq

structure ClassEntry where
  atom : BitVec 16
  wndProc : BitVec 64

structure WindowEntry where
  classAtom : BitVec 16
  wndProc : BitVec 64
  nsWindow : BitVec 64
  title : String
  queue : List PendingMsg

structure State where
  classes : AList fun _ : String => ClassEntry
  nextAtom : BitVec 16
  windows : AList fun _ : Hwnd => WindowEntry
  nextHwnd : Hwnd

/-- The token of the first window. -/
def firstHwnd : Hwnd := 0x4000000000020000

namespace State

def new : State := ⟨∅, 0xC000, ∅, firstHwnd⟩

variable (s : State)

/-- `register_class`: a class that is there already keeps its entry. -/
def registerClass (name : String) (wndProc : BitVec 64) : State × BitVec 16 :=
  match s.classes.lookup name with
  | some existing => (s, existing.atom)
  | none =>
    let next := s.nextAtom + 1
    ({ s with
        nextAtom := if next < 0xC000 then 0xC000 else next
        classes := s.classes.insert name ⟨s.nextAtom, wndProc⟩ }, s.nextAtom)

/-- `create_window`: an unknown class has neither an atom nor a window procedure. -/
def createWindow (cls title : String) (nsWindow : BitVec 64) : State × Hwnd :=
  let (classAtom, wndProc) :=
    match s.classes.lookup cls with
    | some c => (c.atom, c.wndProc)
    | none => (0, 0)
  ({ s with
      nextHwnd := s.nextHwnd + 0x10
      windows := s.windows.insert s.nextHwnd ⟨classAtom, wndProc, nsWindow, title, []⟩ },
    s.nextHwnd)

/-- `destroy_window`, with the saved `NSWindow`. -/
def destroyWindow (hwnd : Hwnd) : State × Option (BitVec 64) :=
  ({ s with windows := s.windows.erase hwnd }, (s.windows.lookup hwnd).map (·.nsWindow))

/-- `post_message`. -/
def postMessage (msg : PendingMsg) : State × Bool :=
  match s.windows.lookup msg.hwnd with
  | some w =>
    ({ s with windows := s.windows.insert msg.hwnd { w with queue := w.queue ++ [msg] } }, true)
  | none => (s, false)

/-- `pop_front` on the queue of one window. -/
def popFrom (hwnd : Hwnd) : Option (State × PendingMsg) :=
  match s.windows.lookup hwnd with
  | none => none
  | some w =>
    match w.queue with
    | [] => none
    | msg :: queue =>
      some ({ s with windows := s.windows.insert hwnd { w with queue := queue } }, msg)

/-- `pop_message`; without a filter the first window in the order that has a message gives it. -/
def popMessage (hwndFilter : Option Hwnd) (order : List Hwnd) : State × Option PendingMsg :=
  let popped :=
    match hwndFilter with
    | some h => s.popFrom h
    | none => order.findSome? s.popFrom
  match popped with
  | some (s', msg) => (s', some msg)
  | none => (s, none)

end State

inductive Call where
  | registerClass (name : String) (wndProc : BitVec 64)
  | createWindow (cls title : String) (nsWindow : BitVec 64)
  | destroyWindow (hwnd : Hwnd)
  | postMessage (msg : PendingMsg)
  | popMessage (hwndFilter : Option Hwnd) (order : List Hwnd)

/-- A call and what it has returned. -/
inductive Outcome where
  | registered (atom : BitVec 16)
  | created (hwnd : Hwnd)
  | destroyed (hwnd : Hwnd) (nsWindow : Option (BitVec 64))
  | posted (msg : PendingMsg) (ok : Bool)
  | popped (hwndFilter : Option Hwnd) (result : Option PendingMsg)

/-- The tables and the log of the calls, with its newest entry first. -/
structure Traced where
  state : State
  log : List Outcome

namespace Traced

def new : Traced := ⟨.new, []⟩

/-- One call.  An order that is not one of the live windows is none that the code can take. -/
def step (t : Traced) : Call → Option Traced
  | .registerClass name wndProc =>
    let (s, atom) := t.state.registerClass name wndProc
    some ⟨s, .registered atom :: t.log⟩
  | .createWindow cls title nsWindow =>
    let (s, hwnd) := t.state.createWindow cls title nsWindow
    some ⟨s, .created hwnd :: t.log⟩
  | .destroyWindow hwnd =>
    let (s, nsWindow) := t.state.destroyWindow hwnd
    some ⟨s, .destroyed hwnd nsWindow :: t.log⟩
  | .postMessage msg =>
    let (s, ok) := t.state.postMessage msg
    some ⟨s, .posted msg ok :: t.log⟩
  | .popMessage hwndFilter order =>
    if order.Perm t.state.windows.keys then
      let (s, result) := t.state.popMessage hwndFilter order
      some ⟨s, .popped hwndFilter result :: t.log⟩
    else none

end Traced

end Quantum.Kernel32.Windows
