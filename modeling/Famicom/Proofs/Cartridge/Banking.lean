import Famicom.Proofs.Cartridge.Filling
import Famicom.Proofs.Cartridge.Serial

/-!
# Every window shows the bank of the registers

A circuit keeps where its windows begin, and works it out again on some writes only.
What is read is nevertheless always in the bank that the registers name at that time:

* **numbers** — for each board, the bank in a window as its manual gives it, in numbers
  from the first bank on (`Circuit.bankOfProgram`, `Circuit.bankOfPatterns`); the
  beginning of the window is the beginning of that bank (`bankStart_programBanks`,
  `bankStart_patternBanks`);
* **invariant** — the kept beginnings are those of the registers
  (`SerialCircuit.Located`), on the counting board only from the first write to its bank
  registers on (`CountingCircuit.Located`);
* **history** — this survives every event but loading (`Board.Located.afterAll`).

`reads_from_banks` says what a read returns.
-/

namespace Famicom.Cartridge

/-! ## Banks by number -/

/-- A bank by its size and its number among the banks of a memory. -/
structure Bank where
  size : Nat
  number : Nat

namespace Bank

/-- The byte of a memory of `total` bytes that is at a place of the bank. Behind the
last bank the numbers begin anew, and so do the places behind the end of the bank. -/
def index (b : Bank) (total place : Nat) : Nat :=
  b.number % (total / b.size) * b.size + place % b.size

/-- A byte comes from a place of a bank: the bank lies in the memory from its first to
its last byte, and the byte is in it. -/
structure Shows (b : Bank) (memory : Array UInt8) (place : Nat) (byte : UInt8) : Prop where
  inside : (b.number % (memory.size / b.size) + 1) * b.size ≤ memory.size
  byte : memory[b.index memory.size place]? = some byte

variable {b : Bank} {total : Nat}

theorem end_le (hsize : 0 < b.size) (htotal : b.size ≤ total) :
    (b.number % (total / b.size) + 1) * b.size ≤ total := by
  have hcount : 0 < total / b.size := Nat.div_pos htotal hsize
  calc (b.number % (total / b.size) + 1) * b.size
      ≤ total / b.size * b.size := Nat.mul_le_mul_right _ (Nat.mod_lt _ hcount)
    _ ≤ total := Nat.div_mul_le_self _ _

theorem index_lt (hsize : 0 < b.size) (htotal : b.size ≤ total) (place : Nat) :
    b.index total place < total := by
  have hend := end_le hsize htotal
  have hrest := Nat.mod_lt place hsize
  rw [Nat.succ_mul] at hend
  unfold index
  omega

end Bank

theorem Rom.getElem?_read (r : Rom) {offset : Nat} {i : Nat} (h : offset % r.size = i) :
    r.bytes[i]? = some (r.read offset) := by
  have hlt : i < r.bytes.size := h ▸ Nat.mod_lt _ r.nonempty
  subst h
  exact Array.getElem?_eq_getElem hlt

theorem Patterns.getElem?_read (p : Patterns) {offset : Nat} {i : Nat} (h : offset % p.size = i) :
    p.bytes[i]? = some (p.read offset) := by
  cases p with
  | rom chip => exact Rom.getElem?_read chip h
  | ram chip =>
      have hlt : i < chip.cells.toArray.size := by
        rw [Vector.size_toArray]
        exact h ▸ Nat.mod_lt _ (Patterns.size_pos (.ram chip))
      subst h
      exact Array.getElem?_eq_getElem hlt

theorem Patterns.size_bytes (p : Patterns) : p.bytes.size = p.size := by
  cases p with
  | rom chip => rfl
  | ram chip => exact Memory.size_image chip

/-- Numbers from the first bank on. -/
theorem bankStart_ofNat {size bank : Nat} (hbank : 0 < bank) (hsize : bank ≤ size) (n : Nat) :
    bankStart size bank (n : Int) = n % (size / bank) * bank := by
  have hcount : 1 ≤ size / bank := Nat.div_pos hsize hbank
  simp only [bankStart, Nat.max_eq_left hcount]
  rw [← Int.natCast_emod, Int.toNat_natCast]

/-- Numbers from the last bank back. -/
theorem bankStart_neg {size bank : Nat} (hbank : 0 < bank) (k : Nat) (hk : 0 < k)
    (hsize : k * bank ≤ size) :
    bankStart size bank (-(k : Int)) = (size / bank - k) % (size / bank) * bank := by
  have hcount : k ≤ size / bank := (Nat.le_div_iff_mul_le hbank).2 hsize
  have hback : -(k : Int) % (size / bank : Nat) =
      ((size / bank - k : Nat) : Int) % (size / bank : Nat) := by
    rw [← Int.add_emod_right]
    congr 1
    omega
  simp only [bankStart, Nat.max_eq_left (Nat.le_trans hk hcount)]
  rw [hback, ← Int.natCast_emod, Int.toNat_natCast]

/-- A window that begins with a bank shows it from its beginning. -/
theorem offset_eq_index {n total bank place number : Nat} {starts : Vector Nat n}
    {numbers : Vector Int n} (hstarts : starts = numbers.map (bankStart total bank))
    (hwindow : place / bank < n)
    (hnumber : bankStart total bank numbers[place / bank] =
      number % (total / bank) * bank) :
    starts[place / bank] + place % bank = Bank.index ⟨bank, number⟩ total place := by
  subst hstarts
  rw [Vector.getElem_map, hnumber]
  rfl

/-! ## The serial board -/

namespace SerialCircuit

variable {c : Cartridge} {s : SerialCircuit}

/-- The bank in a window of 16 KiB, among as many as there are. In the first two modes
the windows show a pair of banks; then the first bank is fixed in the lower window, or
the last one in the upper window. -/
def programBankIn (s : SerialCircuit) (count window : Nat) : Nat :=
  match s.control.toNat / 4 % 4 with
  | 0 | 1 => s.program.toNat / 2 * 2 + window
  | 2 => if window = 0 then 0 else s.program.toNat
  | _ => if window = 0 then s.program.toNat else count - 1

/-- The bank in a window of 4 KiB: one of a pair, or one of its own. -/
def patternBankIn (s : SerialCircuit) (window : Nat) : Nat :=
  if s.control.toNat / 16 % 2 = 0 then s.pattern0.toNat / 2 * 2 + window
  else if window = 0 then s.pattern0.toNat else s.pattern1.toNat

/-- The windows begin where the registers say, and the registers are as wide as a
receiver leaves them. -/
structure Located (c : Cartridge) (s : SerialCircuit) : Prop where
  windows : s.locate c = s
  represents : ∃ m, s.Represents m

theorem locate_locate (c : Cartridge) (s : SerialCircuit) :
    (s.locate c).locate c = s.locate c := rfl

theorem located_powerOn (c : Cartridge) : (powerOn c).Located c :=
  ⟨locate_locate c _, _, represents_powerOn c⟩

theorem Located.write (h : s.Located c) {address : UInt16} (haddress : 0x8000 ≤ address)
    (value : UInt8) : (s.write c address value).Located c := by
  obtain ⟨hwindows, m, hm⟩ := h
  refine ⟨?_, _, hm.receive c haddress value⟩
  unfold SerialCircuit.write
  split
  · exact locate_locate c _
  simp only []
  split
  · exact locate_locate c _
  · -- a bit that is not the last one moves no window
    exact congrArg (fun t => { t with
      shift := (s.shift >>> 1) ||| ((value &&& 0x01) <<< 4) }) hwindows

theorem programMode_cases (s : SerialCircuit) :
    (s.programMode = 0 ∧ s.control.toNat / 4 % 4 = 0) ∨
    (s.programMode = 1 ∧ s.control.toNat / 4 % 4 = 1) ∨
    (s.programMode = 2 ∧ s.control.toNat / 4 % 4 = 2) ∨
    (s.programMode = 3 ∧ s.control.toNat / 4 % 4 = 3) := by
  have hnumber : s.programMode.toNat = s.control.toNat / 4 % 4 := by
    rw [programMode, Byte.toNat_and_low _ 2 rfl, UInt8.toNat_shiftRight,
      Nat.shiftRight_eq_div_pow]
    rfl
  simp only [← UInt8.toNat_inj, hnumber, and_self, UInt8.reduceToNat]
  omega

theorem bankStart_programBanks (hwidth : s.program.toNat < 16) {total : Nat}
    (htotal : programBank ≤ total) {window : Nat} (hwindow : window < 2) :
    bankStart total programBank s.programBanks[window] =
      s.programBankIn (total / programBank) window % (total / programBank) * programBank := by
  have hnumber (n : Nat) := bankStart_ofNat (by decide) htotal n
  have hlast := bankStart_neg (by decide) 1 Nat.one_pos (by omega : 1 * programBank ≤ total)
  have heven : (s.program &&& 0x0E).toNat = s.program.toNat / 2 * 2 := by
    have := @Byte.toNat_and_field 0x0E s.program 1 3 rfl
    omega
  have hodd := Byte.toNat_or_one s.program
  unfold programBankIn programBanks
  obtain rfl | rfl : window = 0 ∨ window = 1 := by omega
  · obtain ⟨hmode, hnat⟩ | ⟨hmode, hnat⟩ | ⟨hmode, hnat⟩ | ⟨hmode, hnat⟩ := s.programMode_cases
    all_goals rw [hmode, hnat]
    · exact (hnumber _).trans (by rw [heven]; rfl)
    · exact (hnumber _).trans (by rw [heven]; rfl)
    · exact hnumber 0
    · exact hnumber _
  · obtain ⟨hmode, hnat⟩ | ⟨hmode, hnat⟩ | ⟨hmode, hnat⟩ | ⟨hmode, hnat⟩ := s.programMode_cases
    all_goals rw [hmode, hnat]
    · exact (hnumber _).trans (by rw [hodd]; rfl)
    · exact (hnumber _).trans (by rw [hodd]; rfl)
    · exact hnumber _
    · exact hlast

theorem bankStart_patternBanks (hwidth : s.pattern0.toNat < 32) {total : Nat}
    (htotal : patternBank ≤ total) {window : Nat} (hwindow : window < 2) :
    bankStart total patternBank s.patternBanks[window] =
      s.patternBankIn window % (total / patternBank) * patternBank := by
  have hnumber (n : Nat) := bankStart_ofNat (by decide) htotal n
  have heven : (s.pattern0 &&& 0x1E).toNat = s.pattern0.toNat / 2 * 2 := by
    have := @Byte.toNat_and_field 0x1E s.pattern0 1 4 rfl
    omega
  have hodd := Byte.toNat_or_one s.pattern0
  have hmode : s.patternMode.toNat = s.control.toNat / 16 % 2 := by
    rw [patternMode, Byte.toNat_and_low _ 1 rfl, UInt8.toNat_shiftRight,
      Nat.shiftRight_eq_div_pow]
    rfl
  have hpairs : s.patternMode = 0 ↔ s.control.toNat / 16 % 2 = 0 := by
    rw [← hmode, ← UInt8.toNat_inj]
    rfl
  simp only [patternBankIn, patternBanks, hpairs]
  obtain rfl | rfl : window = 0 ∨ window = 1 := by omega
  · split
    · exact (hnumber _).trans (by rw [heven, Nat.add_zero])
    · exact hnumber _
  · split
    · exact (hnumber _).trans (by rw [hodd])
    · exact hnumber _

theorem Located.programOffset_eq (h : s.Located c) (hsize : programBank ≤ c.program.size)
    (address : UInt16) :
    s.programOffset address =
      Bank.index ⟨programBank, s.programBankIn (c.program.size / programBank)
        (address.toNat % 0x8000 / programBank)⟩ c.program.size (address.toNat % 0x8000) := by
  obtain ⟨hwindows, m, hm⟩ := h
  have hwindow : address.toNat % 0x8000 / programBank < 2 := by
    simp only [programBank]
    omega
  exact offset_eq_index (congrArg programStarts hwindows).symm hwindow
    (bankStart_programBanks hm.widths.program hsize hwindow)

theorem Located.patternOffset_eq (h : s.Located c) (hsize : patternBank ≤ c.patterns.size)
    (address : UInt16) :
    s.patternOffset address =
      Bank.index ⟨patternBank, s.patternBankIn (address.toNat % 0x2000 / patternBank)⟩
        c.patterns.size (address.toNat % 0x2000) := by
  obtain ⟨hwindows, m, hm⟩ := h
  have hwindow : address.toNat % 0x2000 / patternBank < 2 := by
    simp only [patternBank]
    omega
  exact offset_eq_index (congrArg patternStarts hwindows).symm hwindow
    (bankStart_patternBanks hm.widths.pattern0 hsize hwindow)

end SerialCircuit

/-! ## The counting board -/

namespace CountingCircuit

variable {c : Cartridge} {s : CountingCircuit} {moved : Bool}

/-- The bank in a window of 8 KiB, among as many as there are. The last one is fixed;
the one before it takes the first or the third window, by the mode. -/
def programBankIn (s : CountingCircuit) (count window : Nat) : Nat :=
  match window with
  | 0 => if s.programMode = 0 then (s.bank 6).toNat else count - 2
  | 1 => (s.bank 7).toNat
  | 2 => if s.programMode = 0 then count - 2 else (s.bank 6).toNat
  | _ => count - 1

/-- The bank in a window of 1 KiB. Two registers stand for pairs of banks in one half of
the windows, four for single banks in the other half; the mode exchanges the halves. -/
def patternBankIn (s : CountingCircuit) (window : Nat) : Nat :=
  let place := if s.patternMode = 0 then window else (window + 4) % 8
  if place < 4 then (s.bank (place / 2)).toNat / 2 * 2 + place % 2
  else (s.bank (place - 2)).toNat

/-- The bank in a window of the program at power-on. -/
def firstBankIn (count window : Nat) : Nat :=
  match window with
  | 0 => 0
  | 1 => 1
  | 2 => count - 2
  | _ => count - 1

/-- The windows begin where the registers say, as soon as they have been moved. Before
that they are where they were at power-on. -/
structure Located (c : Cartridge) (moved : Bool) (s : CountingCircuit) : Prop where
  located : moved = true → s.locate c = s
  resting : moved = false → s.programStarts = (powerOn c).programStarts ∧
    s.patternStarts = (powerOn c).patternStarts

theorem located_powerOn (c : Cartridge) : (powerOn c).Located c false :=
  ⟨(nomatch ·), fun _ => ⟨rfl, rfl⟩⟩

theorem locate_locate (c : Cartridge) (s : CountingCircuit) :
    (s.locate c).locate c = s.locate c := rfl

/-- Only writes up to $9FFF move windows. The others leave the bank registers alone. -/
theorem write_cases (c : Cartridge) {address : UInt16} (haddress : 0x8000 ≤ address)
    (value : UInt8) (s : CountingCircuit) :
    (address < 0xA000 ∧ ∃ t : CountingCircuit, s.write c address value = t.locate c) ∨
    (¬ address < 0xA000 ∧ ∃ mirroring reload counter enabled request,
      s.write c address value = { s with mirroring, reload, counter, enabled, request }) := by
  have hlower := UInt16.le_iff_toNat_le.1 haddress
  have hupper := address.toNat_lt
  simp only [UInt16.reduceToNat] at hlower
  rw [UInt16.lt_iff_toNat_lt]
  simp only [UInt16.reduceToNat]
  unfold write
  obtain ⟨hselection, hnumber⟩ | ⟨hselection, hnumber⟩ | ⟨hselection, hnumber⟩ |
    ⟨hselection, hnumber⟩ := selection_cases address
  all_goals
    obtain hparity | hparity := parity_cases address
    all_goals rw [hselection, hparity]
  · exact .inl ⟨by omega, _, rfl⟩
  · exact .inl ⟨by omega, _, rfl⟩
  · refine .inr ⟨by omega, ?_⟩
    by_cases hwiring : c.wiring = .fourScreen
    · exact ⟨_, _, _, _, _, if_pos hwiring⟩
    · exact ⟨_, _, _, _, _, if_neg hwiring⟩
  all_goals exact .inr ⟨by omega, _, _, _, _, _, rfl⟩

theorem Located.write (h : s.Located c moved) {address : UInt16} (haddress : 0x8000 ≤ address)
    (value : UInt8) :
    (s.write c address value).Located c (moved || decide (address < 0xA000)) := by
  obtain ⟨hbank, t, hwrite⟩ | ⟨hother, mirroring, reload, counter, enabled, request, hwrite⟩ :=
    write_cases c haddress value s
  · -- the windows have just been moved
    rw [hwrite, decide_eq_true hbank, Bool.or_true]
    exact ⟨fun _ => locate_locate c t, (nomatch ·)⟩
  · rw [hwrite, decide_eq_false hother, Bool.or_false]
    exact ⟨fun hmoved => congrArg (fun t => { t with
      mirroring, reload, counter, enabled, request }) (h.located hmoved), h.resting⟩

theorem Located.countLine (h : s.Located c moved) : s.countLine.Located c moved := by
  unfold CountingCircuit.countLine
  split
  · exact ⟨fun hmoved => congrArg (fun t => { t with counter := s.reload }) (h.located hmoved),
      h.resting⟩
  · exact ⟨fun hmoved => congrArg (fun t => { t with
      counter := s.counter - 1
      request := s.request || (s.counter - 1 == 0 && s.enabled) }) (h.located hmoved),
      h.resting⟩

theorem bankStart_programBanks {total : Nat} (htotal : 2 * programBank ≤ total) {window : Nat}
    (hwindow : window < 4) :
    bankStart total programBank s.programBanks[window] =
      s.programBankIn (total / programBank) window % (total / programBank) * programBank := by
  have hnumber (n : Nat) := bankStart_ofNat (by decide) (by omega : programBank ≤ total) n
  have hlast := bankStart_neg (by decide) 1 Nat.one_pos (by omega : 1 * programBank ≤ total)
  have hbefore := bankStart_neg (by decide) 2 Nat.two_pos htotal
  obtain rfl | rfl | rfl | rfl : window = 0 ∨ window = 1 ∨ window = 2 ∨ window = 3 := by omega
  all_goals
    simp only [programBanks, programBankIn]
    by_cases hmode : s.programMode = 0
    all_goals simp only [hmode, if_true, if_false]
  · exact hnumber _
  · exact hbefore
  · exact hnumber _
  · exact hnumber _
  · exact hbefore
  · exact hnumber _
  · exact hlast
  · exact hlast

theorem bankStart_firstBanks {total : Nat} (htotal : 2 * programBank ≤ total) {window : Nat}
    (hwindow : window < 4) :
    bankStart total programBank (#v[0, 1, -2, -1] : Vector Int 4)[window] =
      firstBankIn (total / programBank) window % (total / programBank) * programBank := by
  have hnumber (n : Nat) := bankStart_ofNat (by decide) (by omega : programBank ≤ total) n
  obtain rfl | rfl | rfl | rfl : window = 0 ∨ window = 1 ∨ window = 2 ∨ window = 3 := by omega
  · exact hnumber 0
  · exact hnumber 1
  · exact bankStart_neg (by decide) 2 Nat.two_pos htotal
  · exact bankStart_neg (by decide) 1 Nat.one_pos (by omega)

theorem bankStart_patternBanks {total : Nat} (htotal : patternBank ≤ total) {window : Nat}
    (hwindow : window < 8) :
    bankStart total patternBank s.patternBanks[window] =
      s.patternBankIn window % (total / patternBank) * patternBank := by
  have hnumber (n : Nat) := bankStart_ofNat (by decide) htotal n
  have heven (i : Nat) : (s.bank i &&& 0xFE).toNat = (s.bank i).toNat / 2 * 2 := by
    have := @Byte.toNat_and_field 0xFE (s.bank i) 1 7 rfl
    have := (s.bank i).toNat_lt
    omega
  have hodd (i : Nat) := Byte.toNat_or_one (s.bank i)
  simp only [patternBanks, patternBankIn, heven, hodd]
  obtain rfl | rfl | rfl | rfl | rfl | rfl | rfl | rfl : window = 0 ∨ window = 1 ∨ window = 2 ∨
      window = 3 ∨ window = 4 ∨ window = 5 ∨ window = 6 ∨ window = 7 := by omega
  all_goals
    by_cases hmode : s.patternMode = 0
    all_goals
      simp only [hmode, if_true, if_false]
      exact hnumber _

theorem Located.programOffset_eq (h : s.Located c moved)
    (hsize : 2 * programBank ≤ c.program.size) (address : UInt16) :
    s.programOffset address =
      Bank.index ⟨programBank,
        if moved then s.programBankIn (c.program.size / programBank)
          (address.toNat % 0x8000 / programBank)
        else firstBankIn (c.program.size / programBank)
          (address.toNat % 0x8000 / programBank)⟩ c.program.size (address.toNat % 0x8000) := by
  have hwindow : address.toNat % 0x8000 / programBank < 4 := by
    simp only [programBank]
    omega
  cases moved with
  | true =>
      exact offset_eq_index (congrArg programStarts (h.located rfl)).symm hwindow
        (bankStart_programBanks hsize hwindow)
  | false =>
      exact offset_eq_index (h.resting rfl).1 hwindow (bankStart_firstBanks hsize hwindow)

theorem Located.patternOffset_eq (h : s.Located c moved) (hsize : patternBank ≤ c.patterns.size)
    (address : UInt16) :
    s.patternOffset address =
      Bank.index ⟨patternBank,
        if moved then s.patternBankIn (address.toNat % 0x2000 / patternBank) else 0⟩
        c.patterns.size (address.toNat % 0x2000) := by
  have hwindow : address.toNat % 0x2000 / patternBank < 8 := by
    simp only [patternBank]
    omega
  cases moved with
  | true =>
      exact offset_eq_index (congrArg patternStarts (h.located rfl)).symm hwindow
        (bankStart_patternBanks hsize hwindow)
  | false =>
      -- all eight windows begin with the first byte
      have hfirst : s.patternStarts[address.toNat % 0x2000 / patternBank] = 0 := by
        rw [(h.resting rfl).2]
        exact Vector.getElem_replicate _
      show s.patternStarts[address.toNat % 0x2000 / patternBank] + _ = _
      rw [hfirst]
      simp [Bank.index, patternBank]

end CountingCircuit

/-! ## Boards -/

namespace Circuit

variable {c c' : Cartridge} {circuit : Circuit} {moved : Bool}

/-- The bank of the program that stands at a place of the upper half, by the registers.
The linear board knows one bank, which is the whole program. On the counting board it
counts whether a bank register has been written. -/
def bankOfProgram (moved : Bool) (total place : Nat) : Circuit → Bank
  | linear => { size := total, number := 0 }
  | serial s => { size := 0x4000, number := s.programBankIn (total / 0x4000) (place / 0x4000) }
  | counting s =>
    { size := 0x2000
      number := if moved then s.programBankIn (total / 0x2000) (place / 0x2000)
        else CountingCircuit.firstBankIn (total / 0x2000) (place / 0x2000) }

/-- The bank of the patterns that stands at a place. The linear board shows the first
8 KiB. -/
def bankOfPatterns (moved : Bool) (place : Nat) : Circuit → Bank
  | linear => { size := 0x2000, number := 0 }
  | serial s => { size := 0x1000, number := s.patternBankIn (place / 0x1000) }
  | counting s =>
    { size := 0x0400, number := if moved then s.patternBankIn (place / 0x0400) else 0 }

/-- The windows of a circuit are where its registers put them. -/
def Located (c : Cartridge) (moved : Bool) : Circuit → Prop
  | linear => True
  | serial s => s.Located c
  | counting s => s.Located c moved

theorem kind_powerOn (c : Cartridge) : (powerOn c).kind = c.kind := by
  unfold powerOn
  split <;> exact Eq.symm ‹_›

theorem located_powerOn (c : Cartridge) : (powerOn c).Located c false := by
  unfold powerOn
  split
  · exact trivial
  · exact SerialCircuit.located_powerOn c
  · exact CountingCircuit.located_powerOn c

theorem Located.write (h : circuit.Located c moved) {address : UInt16}
    (haddress : 0x8000 ≤ address) (value : UInt8) :
    (circuit.write c address value).Located c (moved || decide (address < 0xA000)) := by
  cases circuit with
  | linear => exact trivial
  | serial s => exact SerialCircuit.Located.write h haddress value
  | counting s => exact CountingCircuit.Located.write h haddress value

/-- Where windows begin is a matter of the sizes of the memories. -/
theorem Located.of_size (h : circuit.Located c moved) (hprogram : c'.program.size = c.program.size)
    (hpatterns : c'.patterns.size = c.patterns.size) : circuit.Located c' moved := by
  cases circuit with
  | linear => exact trivial
  | serial s =>
      refine ⟨?_, h.represents⟩
      rw [SerialCircuit.locate, hprogram, hpatterns]
      exact h.windows
  | counting s =>
      refine ⟨fun hmoved => ?_, fun hmoved => ⟨?_, ?_⟩⟩
      · rw [CountingCircuit.locate, hprogram, hpatterns]
        exact h.located hmoved
      · rw [(h.resting hmoved).1, CountingCircuit.powerOn, CountingCircuit.powerOn, hprogram]
      · exact (h.resting hmoved).2

/-- Both switching boards have room for the banks that they fix. -/
theorem Located.programOffset_mod (h : circuit.Located c moved) (hc : c.Whole)
    (address : UInt16) :
    circuit.programOffset address % c.program.size =
      (circuit.bankOfProgram moved c.program.size (address.toNat % 0x8000)).index
        c.program.size (address.toNat % 0x8000) := by
  have hunit : 0x4000 ≤ c.program.size := hc.programUnit_le
  cases circuit with
  | linear => simp [programOffset, bankOfProgram, Bank.index]
  | serial s =>
      have hoffset := SerialCircuit.Located.programOffset_eq h hunit address
      exact (congrArg (· % c.program.size) hoffset).trans
        (Nat.mod_eq_of_lt (Bank.index_lt (by decide : 0 < SerialCircuit.programBank) hunit _))
  | counting s =>
      have hoffset := CountingCircuit.Located.programOffset_eq h hunit address
      have hbank : CountingCircuit.programBank ≤ c.program.size := Nat.le_trans (by decide) hunit
      exact (congrArg (· % c.program.size) hoffset).trans
        (Nat.mod_eq_of_lt (Bank.index_lt (by decide : 0 < CountingCircuit.programBank) hbank _))

theorem Located.patternOffset_mod (h : circuit.Located c moved)
    (hunit : patternUnit ≤ c.patterns.size) (address : UInt16) :
    circuit.patternOffset address % c.patterns.size =
      (circuit.bankOfPatterns moved (address.toNat % 0x2000)).index
        c.patterns.size (address.toNat % 0x2000) := by
  cases circuit with
  | linear =>
      have hlt : address.toNat % 0x2000 < c.patterns.size :=
        Nat.lt_of_lt_of_le (Nat.mod_lt _ (by decide)) hunit
      simp [patternOffset, bankOfPatterns, Bank.index, Nat.mod_eq_of_lt hlt]
  | serial s =>
      have hbank : SerialCircuit.patternBank ≤ c.patterns.size := Nat.le_trans (by decide) hunit
      have hoffset := SerialCircuit.Located.patternOffset_eq h hbank address
      exact (congrArg (· % c.patterns.size) hoffset).trans
        (Nat.mod_eq_of_lt (Bank.index_lt (by decide : 0 < SerialCircuit.patternBank) hbank _))
  | counting s =>
      have hbank : CountingCircuit.patternBank ≤ c.patterns.size := Nat.le_trans (by decide) hunit
      have hoffset := CountingCircuit.Located.patternOffset_eq h hbank address
      exact (congrArg (· % c.patterns.size) hoffset).trans
        (Nat.mod_eq_of_lt (Bank.index_lt (by decide : 0 < CountingCircuit.patternBank) hbank _))

/-- Every bank of a whole program lies in it. -/
theorem bankOfProgram_end_le (hc : c.Whole) (moved : Bool) (place : Nat) (circuit : Circuit) :
    let bank := circuit.bankOfProgram moved c.program.size place
    (bank.number % (c.program.size / bank.size) + 1) * bank.size ≤ c.program.size := by
  have hunit : 0x4000 ≤ c.program.size := hc.programUnit_le
  apply Bank.end_le
  · cases circuit with
    | linear => exact c.program.nonempty
    | _ => exact Nat.succ_pos _
  · cases circuit with
    | linear => exact Nat.le_refl _
    | serial s => exact hunit
    | counting s => exact Nat.le_trans (by decide : 0x2000 ≤ 0x4000) hunit

/-- A bank of patterns is no larger than what a cartridge has of them. -/
theorem bankOfPatterns_size (moved : Bool) (place : Nat) (circuit : Circuit) :
    0 < (circuit.bankOfPatterns moved place).size ∧
      (circuit.bankOfPatterns moved place).size ≤ patternUnit := by
  cases circuit with
  | linear => exact ⟨Nat.succ_pos _, Nat.le_refl _⟩
  | serial s => exact ⟨Nat.succ_pos _, (by decide : 0x1000 ≤ 0x2000)⟩
  | counting s => exact ⟨Nat.succ_pos _, (by decide : 0x0400 ≤ 0x2000)⟩

theorem bankOfPatterns_end_le (hunit : patternUnit ≤ c.patterns.size) (moved : Bool)
    (place : Nat) (circuit : Circuit) :
    let bank := circuit.bankOfPatterns moved place
    (bank.number % (c.patterns.size / bank.size) + 1) * bank.size ≤ c.patterns.size := by
  obtain ⟨hpositive, hsize⟩ := circuit.bankOfPatterns_size moved place
  exact Bank.end_le hpositive (Nat.le_trans hsize hunit)

end Circuit

namespace Board

/-- The windows of a board are where the registers put them. -/
def Located (moved : Bool) (b : Board) : Prop := b.circuit.Located b.cartridge moved

theorem Located.after {b : Board} {moved : Bool} (h : b.Located moved) {e : Event}
    (he : ¬ e.Loads) : (b.after e).Located (moved || e.selectsBanks) := by
  have hmake := make_after b e
  have hprogram : (b.after e).cartridge.program.size = b.cartridge.program.size :=
    congrArg Rom.size (program_eq_of_make hmake)
  have hpatterns := patterns_size_eq hmake
  apply Circuit.Located.of_size (c := b.cartridge) _ hprogram hpatterns
  obtain ⟨address, value, hregister, hupper, hcircuit⟩ | ⟨hregister, hcircuit⟩ |
    ⟨hregister, s, hs, hcircuit⟩ := circuit_after b he
  · rw [hcircuit, Event.selectsBanks_register hregister]
    exact Circuit.Located.write h hupper value
  · rw [hcircuit, Event.selectsBanks_idle hregister, Bool.or_false]
    exact h
  · rw [hcircuit, Event.selectsBanks_idle hregister, Bool.or_false]
    have hcounting : (Circuit.counting s).Located b.cartridge moved := hs ▸ h
    exact CountingCircuit.Located.countLine hcounting

/-- **A history.** The windows stay where the registers put them, whatever happens to a
board but loading. -/
theorem Located.afterAll {b : Board} {moved : Bool} (h : b.Located moved) (events : List Event)
    (hloads : ∀ e ∈ events, ¬ e.Loads) :
    (b.afterAll events).Located (moved || events.any Event.selectsBanks) := by
  induction events generalizing b moved with
  | nil => rwa [List.any_nil, Bool.or_false]
  | cons e rest ih =>
      have hnext := ih (h.after (hloads e List.mem_cons_self))
        fun e he => hloads e (List.mem_cons_of_mem _ he)
      rwa [Bool.or_assoc] at hnext

/-- A cartridge on its board, behind a history from power-on. -/
theorem located_history (c : Cartridge) (events : List Event) (hloads : ∀ e ∈ events, ¬ e.Loads) :
    ((ofCartridge c).afterAll events).Located (events.any Event.selectsBanks) := by
  have hfresh : (ofCartridge c).Located false := Circuit.located_powerOn c
  have hall := hfresh.afterAll events hloads
  rwa [Bool.false_or] at hall

end Board

/-- **Reads come from the banks of the registers.** Take a cartridge that was built, on
its board, and any history of writes by the processor and the picture unit, of dots and
of battery saves. A read in the upper half returns a byte of the program, and a read of
the picture unit a byte of the patterns: from the bank that the manual of the board gives
for the registers at that time, modulo the banks that there are, and from the place of
the address in it. The whole bank is inside the memory. Until one of its bank registers
is written, the counting board shows the banks of power-on. -/
theorem reads_from_banks {program patterns : Array UInt8} {number : UInt8} {wiring : Mirroring}
    {battery : Bool} {c : Cartridge} (hbuild : build program patterns number wiring battery = .ok c)
    (events : List Board.Event) (hloads : ∀ e ∈ events, ¬ e.Loads) (address : UInt16) :
    let b := (Board.ofCartridge c).afterAll events
    let moved := events.any Board.Event.selectsBanks
    b.circuit.kind = c.kind ∧
    (0x8000 ≤ address →
      (b.circuit.bankOfProgram moved c.program.size (address.toNat - 0x8000)).Shows
        c.program.bytes (address.toNat - 0x8000) (b.read address)) ∧
    (b.circuit.bankOfPatterns moved (address.toNat % 0x2000)).Shows
      b.cartridge.patterns.bytes (address.toNat % 0x2000) (b.readPattern address) := by
  intro b moved
  have hc : c.Whole := whole_of_build hbuild
  have hmake : b.make = (Board.ofCartridge c).make := Board.make_afterAll _ events
  have hprogram : b.cartridge.program = c.program := Board.program_eq_of_make hmake
  have hsize : b.cartridge.patterns.size = c.patterns.size := Board.patterns_size_eq hmake
  have hwhole : b.cartridge.Whole := ⟨hprogram ▸ hc.program, hsize ▸ hc.patterns⟩
  have hlocated : b.Located moved := Board.located_history c events hloads
  refine ⟨?_, ?_, ?_⟩
  · exact (congrArg Board.Make.circuit hmake).trans (Circuit.kind_powerOn c)
  · intro hupper
    have hlower := UInt16.le_iff_toNat_le.1 hupper
    have hlt := address.toNat_lt
    have hplace : address.toNat - 0x8000 = address.toNat % 0x8000 := by
      simp only [UInt16.reduceToNat] at hlower
      omega
    have hread : b.read address = b.cartridge.program.read (b.circuit.programOffset address) := by
      rw [Board.read, if_pos hupper]
    rw [hplace, hread, ← hprogram]
    exact ⟨Circuit.bankOfProgram_end_le hwhole moved _ _,
      Rom.getElem?_read _ (hlocated.programOffset_mod hwhole address)⟩
  · have hunit := hwhole.patternUnit_le
    have hinside := Circuit.bankOfPatterns_end_le hunit moved (address.toNat % 0x2000) b.circuit
    have hbyte := Patterns.getElem?_read b.cartridge.patterns
      (Circuit.Located.patternOffset_mod hlocated hunit address)
    rw [← Patterns.size_bytes] at hinside hbyte
    exact ⟨hinside, hbyte⟩

/-- Bank 5 among three banks is the last one. -/
theorem reads_from_banks_wrapped :
    let program := Array.ofFn fun i : Fin 0xC000 => UInt8.ofNat (i.val / 0x4000)
    let events := [1, 0, 1, 0, 0].map (Board.Event.write 0xE000)
    ∃ c, build program #[] 1 .vertical false = .ok c ∧ (∀ e ∈ events, ¬ e.Loads) ∧
      ((Board.ofCartridge c).afterAll events).read 0x8000 = 2 := by
  intro program events
  have hsize : program.size = 0xC000 := Array.size_ofFn
  have hplain : ∀ e ∈ events, ¬ e.Loads := by simp [events, Board.Event.Loads]
  have hserial : BoardKind.ofNumber? 1 = some .serial := rfl
  obtain ⟨c, hbuild⟩ := exists_build (by omega : 0 < program.size) hserial #[] .vertical false
  refine ⟨c, hbuild, hplain, ?_⟩
  obtain ⟨hprogram, hkind, -⟩ := build_eq_ok hbuild
  have hbytes : c.program.bytes = program := by
    rw [(romOf?_eq_some hprogram).2, fillOut_eq (by decide) (by rw [hsize]; decide)]
  have hfresh : (Board.ofCartridge c).circuit = .serial (.powerOn c) := by
    rw [Board.ofCartridge, Circuit.powerOn, ← Option.some.inj (hserial.symm.trans hkind)]
  obtain ⟨s, hs, hrepresents⟩ :=
    (SerialCircuit.represents_powerOn c).afterAll hfresh events hplain
  have hregisters : s.registers =
      { control := 0x0C, pattern0 := 0, pattern1 := 0, program := 5 } :=
    hrepresents.registers.trans (by decide)
  have hlower : s.programBankIn 3 0 = 5 := by
    rw [SerialCircuit.programBankIn, show s.control.toNat = 0x0C from
      congrArg SerialRegisters.control hregisters]
    exact congrArg SerialRegisters.program hregisters
  have hbyte := ((reads_from_banks hbuild events hplain 0x8000).2.1 (by decide)).byte
  have hbank : Circuit.bankOfProgram (events.any Board.Event.selectsBanks) c.program.size 0
      (.serial s) = { size := 0x4000, number := 5 } := by
    rw [Rom.size, hbytes, hsize]
    exact congrArg (Bank.mk 0x4000) hlower
  have hthird : program[0x8000]? = some 2 := Array.getElem?_ofFn
  rw [hs] at hbyte
  rw [show (0x8000 : UInt16).toNat - 0x8000 = 0 from rfl, hbank, hbytes, hsize] at hbyte
  exact (Option.some.inj (hthird.symm.trans hbyte)).symm

end Famicom.Cartridge
