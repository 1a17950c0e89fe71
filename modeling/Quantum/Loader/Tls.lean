import Quantum.Loader.Load

/-!
# TLS directory

`tls::parse`.  The directory holds virtual addresses; the parser takes the preferred base off them.
-/

namespace Quantum.Loader

/-- `dir::TLS`. -/
def dirTls : Nat := 9

structure TlsInfo where
  rawStartRva : BitVec 32
  rawEndRva : BitVec 32
  indexRva : BitVec 32
  callbacksRva : BitVec 32
  sizeOfZeroFill : BitVec 32
  characteristics : BitVec 32
  callbacks : List (BitVec 32)
  deriving DecidableEq

/-- `to_rva`. -/
def PeImage.toRva (image : PeImage) (va : BitVec 64) : BitVec 32 :=
  (va - image.preferredBase).setWidth 32

/-- The loop over the callbacks from `off` on.  It stops with an error at the 257th callback; `left` is
how many it may still take. -/
def callbackLoop (image : PeImage) (callbacksRva : BitVec 32) :
    Nat → BitVec 32 → Except LoadError (List (BitVec 32))
  | 0, _ => .error (.malformed "tls callbacks unbounded" callbacksRva.toNat)
  | left + 1, off =>
    match image.rvaToSlice off 8 with
    | none => .error (.malformed "tls callback slot" off.toNat)
    | some slot =>
      if le64 slot = 0 then .ok []
      else if off.toNat + 8 < 2 ^ 32 then
        (callbackLoop image callbacksRva left (off + 8)).map (image.toRva (le64 slot) :: ·)
      else .error (.malformed "tls callbacks overflow" off.toNat)

def Tls.parse (image : PeImage) : Except LoadError (Option TlsInfo) :=
  match image.dataDir dirTls with
  | none => .ok none
  | some dirEntry =>
    match image.rvaToSlice dirEntry.virtualAddress 40 with
    | none => .error (.malformed "TLS directory" dirEntry.virtualAddress.toNat)
    | some bytes =>
      let callbacksVa := le64 (bytes.drop 24)
      let callbacksRva := image.toRva callbacksVa
      let callbacks :=
        if callbacksVa ≠ 0 then callbackLoop image callbacksRva 257 callbacksRva else .ok []
      callbacks.map fun callbacks => some {
        rawStartRva := image.toRva (le64 bytes)
        rawEndRva := image.toRva (le64 (bytes.drop 8))
        indexRva := image.toRva (le64 (bytes.drop 16))
        callbacksRva := callbacksRva
        sizeOfZeroFill := le32 (bytes.drop 32)
        characteristics := le32 (bytes.drop 36)
        callbacks := callbacks }

end Quantum.Loader
