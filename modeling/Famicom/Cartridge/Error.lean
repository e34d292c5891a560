/-!
# What can go wrong with a cartridge
-/

namespace Famicom.Cartridge

inductive CartridgeError where
  | badMagic
  | truncated (expected actual : Nat)
  | unsupportedBoard (number : UInt8)
  | emptyProgram
  /-- The state belongs to another board or another layout of memory. -/
  | stateMismatch
deriving DecidableEq, Repr

def CartridgeError.message : CartridgeError → String
  | badMagic => "invalid iNES magic (expected NES\\x1A)"
  | truncated expected actual =>
    "iNES image too short: expected " ++ toString expected ++ " bytes, got " ++ toString actual
  | unsupportedBoard number => "unsupported mapper: " ++ toString number.toNat
  | emptyProgram => "cartridge has no PRG ROM"
  | stateMismatch => "saved state does not match this cartridge"

end Famicom.Cartridge
