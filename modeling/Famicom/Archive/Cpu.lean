import Famicom.Archive.Basic
import Famicom.Cpu.Processor

/-!
# Archives of the processor
-/

namespace Famicom.Archive

open Json Cpu

instance : Archive Status where
  encode p := encode p.bits
  decode? d := (decode? d).map Status.mk

instance : Archive Registers where
  encode r :=
    .object [("a", encode r.a), ("x", encode r.x), ("y", encode r.y), ("s", encode r.s),
      ("pc", encode r.pc), ("p", encode r.p)]
  decode? d := do
    let f ← fields? ["a", "x", "y", "s", "pc", "p"] d
    return { a := ← field? f "a", x := ← field? f "x", y := ← field? f "y", s := ← field? f "s"
             pc := ← field? f "pc", p := ← field? f "p" }

/-- A latched interrupt, or the word for none. -/
instance : Archive (Option Interrupt) where
  encode
    | none => .text "None"
    | some .reset => .text "Reset"
    | some .nmi => .text "Nmi"
    | some .irq => .text "Irq"
  decode? :=
    choice? [("None", none), ("Reset", some .reset), ("Nmi", some .nmi), ("Irq", some .irq)]

instance : Archive Processor where
  encode c :=
    .object [("regs", encode c.registers), ("cycles", encode c.cycles),
      ("stall", encode c.stall), ("pending", encode c.pending)]
  decode? d := do
    let f ← fields? ["regs", "cycles", "stall", "pending"] d
    return { registers := ← field? f "regs", cycles := ← field? f "cycles"
             stall := ← field? f "stall", pending := ← field? f "pending" }

end Famicom.Archive
