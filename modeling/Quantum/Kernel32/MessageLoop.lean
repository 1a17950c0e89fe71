import Quantum.Kernel32.WindowsState

/-!
# The message loop

`PeekMessageW` and `GetMessageW` over the tables of `WindowsState`, with the pending quit code.  A call drains
one event of the host at most, which is `none` where there is none to drain; the filter on message numbers is
ignored.  No call here adds or removes a window, so the order in which a map is iterated stays what it was.
-/

namespace Quantum.Kernel32.Windows

/-- `Msg`, the form that the guest reads. -/
structure Msg where
  hwnd : Hwnd
  message : BitVec 32
  wparam : BitVec 64
  lparam : BitVec 64
  time : BitVec 32
  pt : BitVec 32 × BitVec 32
  deriving DecidableEq

/-- The tables and the code of a pending quit. -/
structure Pump where
  state : State
  quitCode : Option (BitVec 32)

def PM_REMOVE : BitVec 32 := 1

def WM_QUIT : BitVec 32 := 0x12

def quitMsg (code : BitVec 32) : PendingMsg := ⟨0, WM_QUIT, code.signExtend 64, 0⟩

/-- `write_msg`: what the pointer holds afterwards.  A null pointer is `none`. -/
def writeMsg (msg : Option Msg) (m : PendingMsg) : Option Msg :=
  msg.map fun _ => ⟨m.hwnd, m.message, m.wparam, m.lparam, 0, (0, 0)⟩

/-- `write_bytes(msg, 0, 1)`. -/
def clearMsg (msg : Option Msg) : Option Msg :=
  msg.map fun _ => ⟨0, 0, 0, 0, 0, (0, 0)⟩

/-- The message for the type of an `NSEvent`. -/
def winMsg (kind : BitVec 64) : Option (BitVec 32) :=
  if kind = 10 then some 0x0100
  else if kind = 11 then some 0x0101
  else if kind = 5 then some 0x0200
  else if kind = 1 then some 0x0201
  else if kind = 2 then some 0x0202
  else none

/-- `pump_cocoa_event_into_queue`. -/
def pumpCocoaEventIntoQueue (s : State) (event : Option (BitVec 64)) (targetHwnd : Option Hwnd) :
    State × Bool :=
  match event with
  | none => (s, false)
  | some kind =>
    match winMsg kind with
    | none => (s, true)
    | some message =>
      let dest := targetHwnd.getD 0
      if dest ≠ 0 then ((s.postMessage ⟨dest, message, 0, 0⟩).1, true) else (s, true)

/-- `peek_message_inline`: a pop, and a post of what was popped. -/
def peekMessageInline (s : State) (hwndFilter : Option Hwnd) (order : List Hwnd) :
    State × Option PendingMsg :=
  match s.popMessage hwndFilter order with
  | (s, some m) => ((s.postMessage m).1, some m)
  | (s, none) => (s, none)

/-- What a call leaves behind, in the tables and under the pointer, and what it returns. -/
structure Answer where
  pump : Pump
  msg : Option Msg
  ret : BitVec 32

def hfilter (hwnd : Hwnd) : Option Hwnd :=
  if hwnd = 0 then none else some hwnd

def Pump.peekMessageW (p : Pump) (event : Option (BitVec 64)) (order : List Hwnd) (msg : Option Msg)
    (hwnd : Hwnd) (remove : BitVec 32) : Answer :=
  match p.quitCode with
  | some code =>
    ⟨if remove &&& PM_REMOVE ≠ 0 then { p with quitCode := none } else p, writeMsg msg (quitMsg code), 1⟩
  | none =>
    let (s, _) := pumpCocoaEventIntoQueue p.state event (hfilter hwnd)
    let (s, found) :=
      if remove &&& PM_REMOVE ≠ 0 then s.popMessage (hfilter hwnd) order
      else peekMessageInline s (hfilter hwnd) order
    match found with
    | some m => ⟨⟨s, none⟩, writeMsg msg m, 1⟩
    | none => ⟨⟨s, none⟩, clearMsg msg, 0⟩

/-- `GetMessageW`: a round of its loop for each element of the list, with the event of that round; `none` if
the loop still spins after them. -/
def Pump.getMessageW (p : Pump) (order : List Hwnd) (msg : Option Msg) (hwnd : Hwnd) :
    List (Option (BitVec 64)) → Option Answer
  | [] => none
  | event :: events =>
    match p.quitCode with
    | some code => some ⟨{ p with quitCode := none }, writeMsg msg (quitMsg code), 0⟩
    | none =>
      let (s, _) := pumpCocoaEventIntoQueue p.state event (hfilter hwnd)
      match s.popMessage (hfilter hwnd) order with
      | (s, some m) => some ⟨⟨s, none⟩, writeMsg msg m, 1⟩
      | (s, none) => Pump.getMessageW ⟨s, none⟩ order msg hwnd events

end Quantum.Kernel32.Windows
