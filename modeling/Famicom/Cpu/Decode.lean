import Famicom.Cpu.Instruction

/-!
# Decoding

The decode table has one entry for every opcode byte, so decoding cannot fail.
-/

namespace Famicom.Cpu

set_option maxRecDepth 4000 in
/-- The decode table, in the order of the opcode bytes. -/
def decodeTable : Vector Instruction 256 := #v[
  -- $00
  ⟨.brk, .implied, 7, 0⟩, ⟨.ora, .indexedIndirect, 6, 0⟩,
  ⟨.kil, .implied, 2, 0⟩, ⟨.slo, .indexedIndirect, 8, 0⟩,
  ⟨.nop, .zeroPage, 3, 0⟩, ⟨.ora, .zeroPage, 3, 0⟩,
  ⟨.asl, .zeroPage, 5, 0⟩, ⟨.slo, .zeroPage, 5, 0⟩,
  ⟨.php, .implied, 3, 0⟩, ⟨.ora, .immediate, 2, 0⟩,
  ⟨.asl, .accumulator, 2, 0⟩, ⟨.anc, .immediate, 2, 0⟩,
  ⟨.nop, .absolute, 4, 0⟩, ⟨.ora, .absolute, 4, 0⟩,
  ⟨.asl, .absolute, 6, 0⟩, ⟨.slo, .absolute, 6, 0⟩,
  -- $10
  ⟨.bpl, .relative, 2, 0⟩, ⟨.ora, .indirectIndexed, 5, 1⟩,
  ⟨.kil, .implied, 2, 0⟩, ⟨.slo, .indirectIndexed, 8, 0⟩,
  ⟨.nop, .zeroPageX, 4, 0⟩, ⟨.ora, .zeroPageX, 4, 0⟩,
  ⟨.asl, .zeroPageX, 6, 0⟩, ⟨.slo, .zeroPageX, 6, 0⟩,
  ⟨.clc, .implied, 2, 0⟩, ⟨.ora, .absoluteY, 4, 1⟩,
  ⟨.nop, .implied, 2, 0⟩, ⟨.slo, .absoluteY, 7, 0⟩,
  ⟨.nop, .absoluteX, 4, 1⟩, ⟨.ora, .absoluteX, 4, 1⟩,
  ⟨.asl, .absoluteX, 7, 0⟩, ⟨.slo, .absoluteX, 7, 0⟩,
  -- $20
  ⟨.jsr, .absolute, 6, 0⟩, ⟨.and, .indexedIndirect, 6, 0⟩,
  ⟨.kil, .implied, 2, 0⟩, ⟨.rla, .indexedIndirect, 8, 0⟩,
  ⟨.bit, .zeroPage, 3, 0⟩, ⟨.and, .zeroPage, 3, 0⟩,
  ⟨.rol, .zeroPage, 5, 0⟩, ⟨.rla, .zeroPage, 5, 0⟩,
  ⟨.plp, .implied, 4, 0⟩, ⟨.and, .immediate, 2, 0⟩,
  ⟨.rol, .accumulator, 2, 0⟩, ⟨.anc, .immediate, 2, 0⟩,
  ⟨.bit, .absolute, 4, 0⟩, ⟨.and, .absolute, 4, 0⟩,
  ⟨.rol, .absolute, 6, 0⟩, ⟨.rla, .absolute, 6, 0⟩,
  -- $30
  ⟨.bmi, .relative, 2, 0⟩, ⟨.and, .indirectIndexed, 5, 1⟩,
  ⟨.kil, .implied, 2, 0⟩, ⟨.rla, .indirectIndexed, 8, 0⟩,
  ⟨.nop, .zeroPageX, 4, 0⟩, ⟨.and, .zeroPageX, 4, 0⟩,
  ⟨.rol, .zeroPageX, 6, 0⟩, ⟨.rla, .zeroPageX, 6, 0⟩,
  ⟨.sec, .implied, 2, 0⟩, ⟨.and, .absoluteY, 4, 1⟩,
  ⟨.nop, .implied, 2, 0⟩, ⟨.rla, .absoluteY, 7, 0⟩,
  ⟨.nop, .absoluteX, 4, 1⟩, ⟨.and, .absoluteX, 4, 1⟩,
  ⟨.rol, .absoluteX, 7, 0⟩, ⟨.rla, .absoluteX, 7, 0⟩,
  -- $40
  ⟨.rti, .implied, 6, 0⟩, ⟨.eor, .indexedIndirect, 6, 0⟩,
  ⟨.kil, .implied, 2, 0⟩, ⟨.sre, .indexedIndirect, 8, 0⟩,
  ⟨.nop, .zeroPage, 3, 0⟩, ⟨.eor, .zeroPage, 3, 0⟩,
  ⟨.lsr, .zeroPage, 5, 0⟩, ⟨.sre, .zeroPage, 5, 0⟩,
  ⟨.pha, .implied, 3, 0⟩, ⟨.eor, .immediate, 2, 0⟩,
  ⟨.lsr, .accumulator, 2, 0⟩, ⟨.alr, .immediate, 2, 0⟩,
  ⟨.jmp, .absolute, 3, 0⟩, ⟨.eor, .absolute, 4, 0⟩,
  ⟨.lsr, .absolute, 6, 0⟩, ⟨.sre, .absolute, 6, 0⟩,
  -- $50
  ⟨.bvc, .relative, 2, 0⟩, ⟨.eor, .indirectIndexed, 5, 1⟩,
  ⟨.kil, .implied, 2, 0⟩, ⟨.sre, .indirectIndexed, 8, 0⟩,
  ⟨.nop, .zeroPageX, 4, 0⟩, ⟨.eor, .zeroPageX, 4, 0⟩,
  ⟨.lsr, .zeroPageX, 6, 0⟩, ⟨.sre, .zeroPageX, 6, 0⟩,
  ⟨.cli, .implied, 2, 0⟩, ⟨.eor, .absoluteY, 4, 1⟩,
  ⟨.nop, .implied, 2, 0⟩, ⟨.sre, .absoluteY, 7, 0⟩,
  ⟨.nop, .absoluteX, 4, 1⟩, ⟨.eor, .absoluteX, 4, 1⟩,
  ⟨.lsr, .absoluteX, 7, 0⟩, ⟨.sre, .absoluteX, 7, 0⟩,
  -- $60
  ⟨.rts, .implied, 6, 0⟩, ⟨.adc, .indexedIndirect, 6, 0⟩,
  ⟨.kil, .implied, 2, 0⟩, ⟨.rra, .indexedIndirect, 8, 0⟩,
  ⟨.nop, .zeroPage, 3, 0⟩, ⟨.adc, .zeroPage, 3, 0⟩,
  ⟨.ror, .zeroPage, 5, 0⟩, ⟨.rra, .zeroPage, 5, 0⟩,
  ⟨.pla, .implied, 4, 0⟩, ⟨.adc, .immediate, 2, 0⟩,
  ⟨.ror, .accumulator, 2, 0⟩, ⟨.arr, .immediate, 2, 0⟩,
  ⟨.jmp, .indirect, 5, 0⟩, ⟨.adc, .absolute, 4, 0⟩,
  ⟨.ror, .absolute, 6, 0⟩, ⟨.rra, .absolute, 6, 0⟩,
  -- $70
  ⟨.bvs, .relative, 2, 0⟩, ⟨.adc, .indirectIndexed, 5, 1⟩,
  ⟨.kil, .implied, 2, 0⟩, ⟨.rra, .indirectIndexed, 8, 0⟩,
  ⟨.nop, .zeroPageX, 4, 0⟩, ⟨.adc, .zeroPageX, 4, 0⟩,
  ⟨.ror, .zeroPageX, 6, 0⟩, ⟨.rra, .zeroPageX, 6, 0⟩,
  ⟨.sei, .implied, 2, 0⟩, ⟨.adc, .absoluteY, 4, 1⟩,
  ⟨.nop, .implied, 2, 0⟩, ⟨.rra, .absoluteY, 7, 0⟩,
  ⟨.nop, .absoluteX, 4, 1⟩, ⟨.adc, .absoluteX, 4, 1⟩,
  ⟨.ror, .absoluteX, 7, 0⟩, ⟨.rra, .absoluteX, 7, 0⟩,
  -- $80
  ⟨.nop, .immediate, 2, 0⟩, ⟨.sta, .indexedIndirect, 6, 0⟩,
  ⟨.nop, .immediate, 2, 0⟩, ⟨.sax, .indexedIndirect, 6, 0⟩,
  ⟨.sty, .zeroPage, 3, 0⟩, ⟨.sta, .zeroPage, 3, 0⟩,
  ⟨.stx, .zeroPage, 3, 0⟩, ⟨.sax, .zeroPage, 3, 0⟩,
  ⟨.dey, .implied, 2, 0⟩, ⟨.nop, .immediate, 2, 0⟩,
  ⟨.txa, .implied, 2, 0⟩, ⟨.xaa, .immediate, 2, 0⟩,
  ⟨.sty, .absolute, 4, 0⟩, ⟨.sta, .absolute, 4, 0⟩,
  ⟨.stx, .absolute, 4, 0⟩, ⟨.sax, .absolute, 4, 0⟩,
  -- $90
  ⟨.bcc, .relative, 2, 0⟩, ⟨.sta, .indirectIndexed, 6, 0⟩,
  ⟨.kil, .implied, 2, 0⟩, ⟨.ahx, .indirectIndexed, 6, 0⟩,
  ⟨.sty, .zeroPageX, 4, 0⟩, ⟨.sta, .zeroPageX, 4, 0⟩,
  ⟨.stx, .zeroPageY, 4, 0⟩, ⟨.sax, .zeroPageY, 4, 0⟩,
  ⟨.tya, .implied, 2, 0⟩, ⟨.sta, .absoluteY, 5, 0⟩,
  ⟨.txs, .implied, 2, 0⟩, ⟨.tas, .absoluteY, 5, 0⟩,
  ⟨.shy, .absoluteX, 5, 0⟩, ⟨.sta, .absoluteX, 5, 0⟩,
  ⟨.shx, .absoluteY, 5, 0⟩, ⟨.ahx, .absoluteY, 5, 0⟩,
  -- $A0
  ⟨.ldy, .immediate, 2, 0⟩, ⟨.lda, .indexedIndirect, 6, 0⟩,
  ⟨.ldx, .immediate, 2, 0⟩, ⟨.lax, .indexedIndirect, 6, 0⟩,
  ⟨.ldy, .zeroPage, 3, 0⟩, ⟨.lda, .zeroPage, 3, 0⟩,
  ⟨.ldx, .zeroPage, 3, 0⟩, ⟨.lax, .zeroPage, 3, 0⟩,
  ⟨.tay, .implied, 2, 0⟩, ⟨.lda, .immediate, 2, 0⟩,
  ⟨.tax, .implied, 2, 0⟩, ⟨.lax, .immediate, 2, 0⟩,
  ⟨.ldy, .absolute, 4, 0⟩, ⟨.lda, .absolute, 4, 0⟩,
  ⟨.ldx, .absolute, 4, 0⟩, ⟨.lax, .absolute, 4, 0⟩,
  -- $B0
  ⟨.bcs, .relative, 2, 0⟩, ⟨.lda, .indirectIndexed, 5, 1⟩,
  ⟨.kil, .implied, 2, 0⟩, ⟨.lax, .indirectIndexed, 5, 1⟩,
  ⟨.ldy, .zeroPageX, 4, 0⟩, ⟨.lda, .zeroPageX, 4, 0⟩,
  ⟨.ldx, .zeroPageY, 4, 0⟩, ⟨.lax, .zeroPageY, 4, 0⟩,
  ⟨.clv, .implied, 2, 0⟩, ⟨.lda, .absoluteY, 4, 1⟩,
  ⟨.tsx, .implied, 2, 0⟩, ⟨.las, .absoluteY, 4, 1⟩,
  ⟨.ldy, .absoluteX, 4, 1⟩, ⟨.lda, .absoluteX, 4, 1⟩,
  ⟨.ldx, .absoluteY, 4, 1⟩, ⟨.lax, .absoluteY, 4, 1⟩,
  -- $C0
  ⟨.cpy, .immediate, 2, 0⟩, ⟨.cmp, .indexedIndirect, 6, 0⟩,
  ⟨.nop, .immediate, 2, 0⟩, ⟨.dcp, .indexedIndirect, 8, 0⟩,
  ⟨.cpy, .zeroPage, 3, 0⟩, ⟨.cmp, .zeroPage, 3, 0⟩,
  ⟨.dec, .zeroPage, 5, 0⟩, ⟨.dcp, .zeroPage, 5, 0⟩,
  ⟨.iny, .implied, 2, 0⟩, ⟨.cmp, .immediate, 2, 0⟩,
  ⟨.dex, .implied, 2, 0⟩, ⟨.axs, .immediate, 2, 0⟩,
  ⟨.cpy, .absolute, 4, 0⟩, ⟨.cmp, .absolute, 4, 0⟩,
  ⟨.dec, .absolute, 6, 0⟩, ⟨.dcp, .absolute, 6, 0⟩,
  -- $D0
  ⟨.bne, .relative, 2, 0⟩, ⟨.cmp, .indirectIndexed, 5, 1⟩,
  ⟨.kil, .implied, 2, 0⟩, ⟨.dcp, .indirectIndexed, 8, 0⟩,
  ⟨.nop, .zeroPageX, 4, 0⟩, ⟨.cmp, .zeroPageX, 4, 0⟩,
  ⟨.dec, .zeroPageX, 6, 0⟩, ⟨.dcp, .zeroPageX, 6, 0⟩,
  ⟨.cld, .implied, 2, 0⟩, ⟨.cmp, .absoluteY, 4, 1⟩,
  ⟨.nop, .implied, 2, 0⟩, ⟨.dcp, .absoluteY, 7, 0⟩,
  ⟨.nop, .absoluteX, 4, 1⟩, ⟨.cmp, .absoluteX, 4, 1⟩,
  ⟨.dec, .absoluteX, 7, 0⟩, ⟨.dcp, .absoluteX, 7, 0⟩,
  -- $E0
  ⟨.cpx, .immediate, 2, 0⟩, ⟨.sbc, .indexedIndirect, 6, 0⟩,
  ⟨.nop, .immediate, 2, 0⟩, ⟨.isc, .indexedIndirect, 8, 0⟩,
  ⟨.cpx, .zeroPage, 3, 0⟩, ⟨.sbc, .zeroPage, 3, 0⟩,
  ⟨.inc, .zeroPage, 5, 0⟩, ⟨.isc, .zeroPage, 5, 0⟩,
  ⟨.inx, .implied, 2, 0⟩, ⟨.sbc, .immediate, 2, 0⟩,
  ⟨.nop, .implied, 2, 0⟩, ⟨.sbc, .immediate, 2, 0⟩,
  ⟨.cpx, .absolute, 4, 0⟩, ⟨.sbc, .absolute, 4, 0⟩,
  ⟨.inc, .absolute, 6, 0⟩, ⟨.isc, .absolute, 6, 0⟩,
  -- $F0
  ⟨.beq, .relative, 2, 0⟩, ⟨.sbc, .indirectIndexed, 5, 1⟩,
  ⟨.kil, .implied, 2, 0⟩, ⟨.isc, .indirectIndexed, 8, 0⟩,
  ⟨.nop, .zeroPageX, 4, 0⟩, ⟨.sbc, .zeroPageX, 4, 0⟩,
  ⟨.inc, .zeroPageX, 6, 0⟩, ⟨.isc, .zeroPageX, 6, 0⟩,
  ⟨.sed, .implied, 2, 0⟩, ⟨.sbc, .absoluteY, 4, 1⟩,
  ⟨.nop, .implied, 2, 0⟩, ⟨.isc, .absoluteY, 7, 0⟩,
  ⟨.nop, .absoluteX, 4, 1⟩, ⟨.sbc, .absoluteX, 4, 1⟩,
  ⟨.inc, .absoluteX, 7, 0⟩, ⟨.isc, .absoluteX, 7, 0⟩
]

@[inline] def Instruction.decode (opcode : UInt8) : Instruction :=
  have : opcode.toNat < 256 := opcode.toNat_lt
  decodeTable[opcode.toNat]

end Famicom.Cpu
