import Famicom.Proofs.Cartridge.Filling

/-!
# Images, byte by byte

What an image says is a description; some of its bits mean nothing, but stand in the
image nevertheless. The bytes of a description give back what it describes, and no other
bytes are taken for an image:

* **flags** — the two bytes of flags are read as they were written
  (`Flags.header_eq`), and any two bytes that name a board have been written for some
  flags (`exists_flags`);
* **sections** — the program and the patterns stand where the header puts them
  (`Description.ofImage_bytes`);
* **completeness** — whatever passes all checks is the image of a description
  (`exists_description`).

`ofImage_exact` says which cartridge or which error comes out.
-/

namespace Famicom.Cartridge

namespace Image

/-! ## Flags -/

/-- What the two bytes of flags say. -/
structure Flags where
  kind : BoardKind
  wiring : Mirroring
  battery : Bool
  trainer : Bool
  /-- With four nametables the bit that tells the two other wirings means nothing. -/
  spare : Bool
  /-- Nor does the lower half of the second byte. -/
  unused : Fin 16
  wired : wiring = .horizontal ∨ wiring = .vertical ∨ wiring = .fourScreen

namespace Flags

/-- The bit that tells a horizontal wiring from a vertical one. -/
def upright (f : Flags) : Bool :=
  match f.wiring with
  | .vertical => true
  | .fourScreen => f.spare
  | _ => false

/-- The first byte: the lower half of the number of the board, and four bits. -/
def first (f : Flags) : UInt8 :=
  .ofNat (f.kind.number.toNat % 16 * 16 + (f.wiring == .fourScreen).toNat * 8 +
    f.trainer.toNat * 4 + f.battery.toNat * 2 + f.upright.toNat)

/-- The second byte: the upper half of the number of the board. -/
def second (f : Flags) : UInt8 := .ofNat (f.kind.number.toNat / 16 * 16 + f.unused.val)

theorem toNat_first (f : Flags) :
    f.first.toNat = f.kind.number.toNat % 16 * 16 + (f.wiring == .fourScreen).toNat * 8 +
      f.trainer.toNat * 4 + f.battery.toNat * 2 + f.upright.toNat := by
  have hfour := (f.wiring == .fourScreen).toNat_le
  have htrainer := f.trainer.toNat_le
  have hbattery := f.battery.toNat_le
  have hupright := f.upright.toNat_le
  exact UInt8.toNat_ofNat_of_lt' (by simp only [UInt8.size]; omega)

theorem toNat_second (f : Flags) :
    f.second.toNat = f.kind.number.toNat / 16 * 16 + f.unused.val := by
  have hnumber := f.kind.number.toNat_lt
  have hunused := f.unused.isLt
  exact UInt8.toNat_ofNat_of_lt' (by simp only [UInt8.size]; omega)

end Flags

/-- The number of a board stands in the upper halves of both bytes of flags. -/
theorem toNat_number (first second : UInt8) :
    ((second &&& (0xF0 : UInt8)) ||| (first >>> 4)).toNat =
      second.toNat / 16 * 16 + first.toNat / 16 := by
  have hlow : first.toNat / 16 < 2 ^ 4 := by
    have := first.toNat_lt
    omega
  have hupper : (second &&& (0xF0 : UInt8)).toNat = (second.toNat / 16) <<< 4 := by
    rw [Byte.toNat_and_field second 4 4 rfl, Nat.shiftLeft_eq]
    have := second.toNat_lt
    omega
  have hlower : (first >>> 4).toNat = first.toNat / 16 := by
    rw [UInt8.toNat_shiftRight, Nat.shiftRight_eq_div_pow]
    rfl
  rw [UInt8.toNat_or, hupper, hlower, ← Nat.shiftLeft_add_eq_or_of_lt hlow, Nat.shiftLeft_eq]

theorem testBit_eq (n i : Nat) (b : Bool) : n.testBit i = b ↔ n / 2 ^ i % 2 = b.toNat := by
  rw [Nat.testBit_eq_decide_div_mod_eq]
  cases b
  · simp
  · simp

/-- The header states what the flags say. -/
theorem Flags.header_eq (f : Flags) (programUnits patternUnits : UInt8) :
    Header.ofBytes programUnits patternUnits f.first f.second =
      { programUnits := programUnits.toNat, patternUnits := patternUnits.toNat
        number := f.kind.number, mirroring := f.wiring, battery := f.battery
        trainer := f.trainer } := by
  have hfirst := f.toNat_first
  have hsecond := f.toNat_second
  have hfour := (f.wiring == .fourScreen).toNat_le
  have htrainer := f.trainer.toNat_le
  have hbattery := f.battery.toNat_le
  have hupright := f.upright.toNat_le
  have hunused := f.unused.isLt
  have hnumber : (f.second &&& (0xF0 : UInt8)) ||| (f.first >>> 4) = f.kind.number := by
    apply UInt8.toNat_inj.1
    rw [toNat_number, hfirst, hsecond]
    omega
  have hbit3 : hasBits f.first 0x08 = (f.wiring == .fourScreen) := by
    rw [Byte.hasBits_eq_testBit _ 3 rfl, testBit_eq, hfirst]
    omega
  have hbit2 : hasBits f.first 0x04 = f.trainer := by
    rw [Byte.hasBits_eq_testBit _ 2 rfl, testBit_eq, hfirst]
    omega
  have hbit1 : hasBits f.first 0x02 = f.battery := by
    rw [Byte.hasBits_eq_testBit _ 1 rfl, testBit_eq, hfirst]
    omega
  have hbit0 : hasBits f.first 0x01 = f.upright := by
    rw [Byte.hasBits_eq_testBit _ 0 rfl, testBit_eq, hfirst]
    omega
  have hmirroring : (if f.wiring == .fourScreen then Mirroring.fourScreen
      else if f.upright then .vertical else .horizontal) = f.wiring := by
    rcases f with ⟨kind, wiring, battery, trainer, spare, unused, rfl | rfl | rfl⟩ <;> rfl
  simp only [Header.ofBytes, hnumber, hbit0, hbit1, hbit2, hbit3, hmirroring]

theorem number_of_ofNumber? {n : UInt8} {kind : BoardKind} (h : BoardKind.ofNumber? n = some kind) :
    n = kind.number := by
  unfold BoardKind.ofNumber? at h
  cases kind <;> grind [BoardKind.number]

/-- Two bytes that name a board have been written for some flags. -/
theorem exists_flags {first second : UInt8} {kind : BoardKind}
    (hkind : BoardKind.ofNumber? ((second &&& (0xF0 : UInt8)) ||| (first >>> 4)) = some kind) :
    ∃ f : Flags, f.first = first ∧ f.second = second := by
  have hnumber : kind.number.toNat = second.toNat / 16 * 16 + first.toNat / 16 := by
    rw [← number_of_ofNumber? hkind, toNat_number]
  have hlt := first.toNat_lt
  let f : Flags :=
    { kind, battery := first.toNat.testBit 1, trainer := first.toNat.testBit 2
      wiring := if first.toNat.testBit 3 then .fourScreen
        else if first.toNat.testBit 0 then .vertical else .horizontal
      spare := first.toNat.testBit 0
      unused := ⟨second.toNat % 16, Nat.mod_lt _ (by decide)⟩
      wired := by grind }
  have hwiring : (f.wiring == .fourScreen) = first.toNat.testBit 3 ∧
      f.upright = first.toNat.testBit 0 := by
    cases hbit3 : first.toNat.testBit 3 <;> cases hbit0 : first.toNat.testBit 0 <;>
      simp [f, Flags.upright, hbit3, hbit0]
  refine ⟨f, UInt8.toNat_inj.1 ?_, UInt8.toNat_inj.1 ?_⟩
  · have hbit0 := (testBit_eq first.toNat 0 _).1 rfl
    have hbit1 := (testBit_eq first.toNat 1 _).1 rfl
    have hbit2 := (testBit_eq first.toNat 2 _).1 rfl
    have hbit3 := (testBit_eq first.toNat 3 _).1 rfl
    rw [f.toNat_first, hwiring.1, hwiring.2]
    simp only [f, ← hbit0, ← hbit1, ← hbit2, ← hbit3, hnumber]
    omega
  · rw [f.toNat_second]
    simp only [f, hnumber]
    omega

/-! ## Sections -/

/-- What an image says. -/
structure Description where
  flags : Flags
  programUnits : UInt8
  patternUnits : UInt8
  /-- Eight bytes of the header mean nothing. -/
  padding : Vector UInt8 8
  /-- What stands in front of the program, if the flags say so. -/
  front : Array UInt8
  program : Array UInt8
  patterns : Array UInt8
  /-- What comes after the patterns means nothing. -/
  trailing : Array UInt8
  some_program : 0 < programUnits.toNat
  front_size : front.size = if flags.trainer then trainerSize else 0
  program_size : program.size = programUnits.toNat * programUnit
  patterns_size : patterns.size = patternUnits.toNat * patternUnit

namespace Description

/-- The header of 16 bytes. -/
def head (d : Description) : Array UInt8 :=
  magic ++ #[d.programUnits, d.patternUnits, d.flags.first, d.flags.second] ++ d.padding.toArray

/-- The image. -/
def bytes (d : Description) : Array UInt8 :=
  d.head ++ d.front ++ d.program ++ d.patterns ++ d.trailing

theorem program_pos (d : Description) : 0 < d.program.size := by
  rw [d.program_size]
  exact Nat.mul_pos d.some_program (by decide)

/-- The cartridge. Without patterns it has writable ones, and all writable memory is
empty. -/
def cartridge (d : Description) : Cartridge :=
  { program := ⟨d.program, d.program_pos⟩
    patterns := if h : 0 < d.patterns.size then .rom ⟨d.patterns, h⟩ else .ram (.filled 0)
    work := .filled 0, kind := d.flags.kind, wiring := d.flags.wiring
    battery := d.flags.battery }

/-- The header as it is read. -/
def header (d : Description) : Header :=
  { programUnits := d.programUnits.toNat, patternUnits := d.patternUnits.toNat
    number := d.flags.kind.number, mirroring := d.flags.wiring, battery := d.flags.battery
    trainer := d.flags.trainer }

theorem head_size (d : Description) : d.head.size = headerSize := by
  simp [head, magic, headerSize]

theorem programStart_eq (d : Description) : d.header.programStart = (d.head ++ d.front).size := by
  rw [Array.size_append, d.head_size, d.front_size, Header.programStart, header]
  cases d.flags.trainer <;> rfl

theorem patternStart_eq (d : Description) :
    d.header.patternStart = (d.head ++ d.front ++ d.program).size := by
  rw [Array.size_append, d.program_size, Header.patternStart, d.programStart_eq]
  rfl

theorem imageEnd_eq (d : Description) :
    d.header.imageEnd = (d.head ++ d.front ++ d.program ++ d.patterns).size := by
  rw [Array.size_append, d.patterns_size, Header.imageEnd, d.patternStart_eq]
  rfl

end Description

/-! The three parts of an array, and what stands in the second one. -/

theorem extract_middle (a b c : Array UInt8) :
    (a ++ b ++ c).extract a.size (a ++ b).size = b := by
  simp [Array.extract_append]

theorem getD_middle (a b c : Array UInt8) {i : Nat} (h : i < b.size) :
    (a ++ b ++ c).getD (a.size + i) 0 = b.getD i 0 := by
  have hrest : (b ++ c)[i]? = b[i]? := Array.getElem?_append_left h
  rw [Array.getD_eq_getD_getElem?, Array.getD_eq_getD_getElem?, Array.append_assoc,
    Array.getElem?_append_right (Nat.le_add_right _ _), Nat.add_sub_cancel_left, hrest]

theorem header?_append (programUnits patternUnits first second : UInt8) {rest : Array UInt8}
    (h : 8 ≤ rest.size) :
    header? (magic ++ #[programUnits, patternUnits, first, second] ++ rest) =
      .ok (.ofBytes programUnits patternUnits first second) := by
  have hsize : ¬ (magic ++ #[programUnits, patternUnits, first, second] ++ rest).size <
      headerSize := by
    simp only [Array.size_append, magic, headerSize, List.size_toArray, List.length_cons,
      List.length_nil]
    omega
  have hmagic : (magic ++ #[programUnits, patternUnits, first, second] ++ rest).extract 0 4 =
      magic := by
    rw [Array.append_assoc]
    simp [Array.extract_append, magic]
  have hbyte (i : Nat) (hi : i < 4) :
      (magic ++ #[programUnits, patternUnits, first, second] ++ rest).getD (4 + i) 0 =
        #[programUnits, patternUnits, first, second].getD i 0 :=
    getD_middle magic _ rest hi
  rw [header?, if_neg hsize, if_neg (not_not_intro hmagic), hbyte 0 (by decide),
    hbyte 1 (by decide), hbyte 2 (by decide), hbyte 3 (by decide)]
  rfl

/-- Behind the header its length is checked, and then the cartridge is built. -/
theorem ofImage_of_header {data : Array UInt8} {h : Header} (hheader : header? data = .ok h) :
    ofImage data =
      if data.size < h.imageEnd then .error (.truncated h.imageEnd data.size)
      else build (data.extract h.programStart h.patternStart)
        (data.extract h.patternStart h.imageEnd) h.number h.mirroring h.battery := by
  unfold ofImage
  rw [hheader]
  simp only [bind, Except.bind]
  split <;> rfl

namespace Description

theorem header?_bytes (d : Description) : header? d.bytes = .ok d.header := by
  have hbytes : d.bytes =
      magic ++ #[d.programUnits, d.patternUnits, d.flags.first, d.flags.second] ++
        (d.padding.toArray ++ (d.front ++ d.program ++ d.patterns ++ d.trailing)) := by
    simp only [bytes, head, Array.append_assoc]
  rw [hbytes, header?_append _ _ _ _ (by simp), Flags.header_eq]
  rfl

/-- Nothing is repeated when the sections are whole. -/
theorem build_eq (d : Description) :
    build d.program d.patterns d.header.number d.header.mirroring d.header.battery =
      .ok d.cartridge := by
  have hprogram : romOf? d.program programUnit = some ⟨d.program, d.program_pos⟩ :=
    romOf?_of_dvd d.program_pos (by decide) (d.program_size ▸ Nat.dvd_mul_left _ _)
  have hpatterns : patternUnit ∣ d.patterns.size := d.patterns_size ▸ Nat.dvd_mul_left _ _
  have hkind : BoardKind.ofNumber? d.header.number = some d.flags.kind := by
    rw [header]
    cases d.flags.kind <;> rfl
  unfold build cartridge
  rw [hprogram, hkind]
  by_cases hpos : 0 < d.patterns.size
  · simp only [romOf?_of_dvd hpos (by decide) hpatterns, dif_pos hpos]
    rfl
  · simp only [romOf?, dif_neg hpos]
    rfl

/-- **There.** An image gives the cartridge that it describes. -/
theorem ofImage_bytes (d : Description) : ofImage d.bytes = .ok d.cartridge := by
  have hsize : ¬ d.bytes.size < d.header.imageEnd := by
    rw [d.imageEnd_eq, bytes, Array.size_append]
    omega
  have hprogram : d.bytes.extract d.header.programStart d.header.patternStart = d.program := by
    have hsections : d.bytes =
        d.head ++ d.front ++ d.program ++ (d.patterns ++ d.trailing) := Array.append_assoc
    rw [d.programStart_eq, d.patternStart_eq, hsections]
    exact extract_middle _ _ _
  have hpatterns : d.bytes.extract d.header.patternStart d.header.imageEnd = d.patterns := by
    rw [d.patternStart_eq, d.imageEnd_eq]
    exact extract_middle _ _ _
  rw [ofImage_of_header d.header?_bytes, if_neg hsize, hprogram, hpatterns]
  exact d.build_eq

end Description

/-! ## Nothing else -/

theorem extract_append_extract (data : Array UInt8) {i j k : Nat} (hij : i ≤ j) (hjk : j ≤ k) :
    data.extract i j ++ data.extract j k = data.extract i k := by
  rw [Array.extract_append_extract, Nat.min_eq_left hij, Nat.max_eq_right hjk]

theorem extract_bytes {data : Array UInt8} (hsize : headerSize ≤ data.size) :
    data.extract 4 8 = #[data.getD 4 0, data.getD 5 0, data.getD 6 0, data.getD 7 0] := by
  have hlong : 16 ≤ data.size := hsize
  apply Array.ext
  · rw [Array.size_extract, Nat.min_eq_left (by omega)]
    rfl
  intro i hi hfour
  rw [Array.getElem_extract]
  obtain rfl | rfl | rfl | rfl : i = 0 ∨ i = 1 ∨ i = 2 ∨ i = 3 := by
    simp only [List.size_toArray, List.length_cons, List.length_nil] at hfour
    omega
  all_goals simp [Array.getD, show 4 < data.size by omega, show 5 < data.size by omega,
    show 6 < data.size by omega, show 7 < data.size by omega]

/-- A byte as a number. -/
def byteAt (data : Array UInt8) (i : Nat) : Nat := (data.getD i 0).toNat

/-- The header that stands behind the magic. -/
def headerOf (data : Array UInt8) : Header :=
  .ofBytes (data.getD 4 0) (data.getD 5 0) (data.getD 6 0) (data.getD 7 0)

/-- The bytes that a header announces, with itself. -/
def announced (data : Array UInt8) : Nat :=
  headerSize + (if (byteAt data 6).testBit 2 then trainerSize else 0) +
    byteAt data 4 * programUnit + byteAt data 5 * patternUnit

/-- What is wrong with bytes that are no image: the first of the checks that they fail. -/
def refusal (data : Array UInt8) : CartridgeError :=
  if data.size < headerSize then .truncated headerSize data.size
  else if data.extract 0 4 ≠ magic then .badMagic
  else if data.size < announced data then .truncated (announced data) data.size
  else if byteAt data 4 = 0 then .emptyProgram
  else .unsupportedBoard (.ofNat (byteAt data 7 / 16 * 16 + byteAt data 6 / 16))

variable {data : Array UInt8}

theorem imageEnd_headerOf (data : Array UInt8) : (headerOf data).imageEnd = announced data := by
  have htrainer : (headerOf data).trainer = (byteAt data 6).testBit 2 :=
    Byte.hasBits_eq_testBit _ 2 rfl
  rw [Header.imageEnd, Header.patternStart, Header.programStart, htrainer, announced]
  split <;> rfl

theorem number_headerOf (data : Array UInt8) :
    (headerOf data).number = .ofNat (byteAt data 7 / 16 * 16 + byteAt data 6 / 16) :=
  (UInt8.ofNat_toNat (x := (headerOf data).number)).symm.trans
    (congrArg UInt8.ofNat (toNat_number (data.getD 6 0) (data.getD 7 0)))

theorem size_programSection (hend : (headerOf data).imageEnd ≤ data.size) :
    (data.extract (headerOf data).programStart (headerOf data).patternStart).size =
      byteAt data 4 * programUnit := by
  have hprogram : (headerOf data).patternStart =
      (headerOf data).programStart + byteAt data 4 * programUnit := rfl
  have hpatterns : (headerOf data).imageEnd =
      (headerOf data).patternStart + byteAt data 5 * patternUnit := rfl
  rw [Array.size_extract, Nat.min_eq_left (by omega)]
  omega

theorem size_patternSection (hend : (headerOf data).imageEnd ≤ data.size) :
    (data.extract (headerOf data).patternStart (headerOf data).imageEnd).size =
      byteAt data 5 * patternUnit := by
  have hpatterns : (headerOf data).imageEnd =
      (headerOf data).patternStart + byteAt data 5 * patternUnit := rfl
  rw [Array.size_extract, Nat.min_eq_left hend]
  omega

/-- What passes all checks is the image of a description. -/
theorem exists_description {kind : BoardKind} (hsize : headerSize ≤ data.size)
    (hmagic : data.extract 0 4 = magic) (hend : (headerOf data).imageEnd ≤ data.size)
    (hunits : 0 < byteAt data 4)
    (hkind : BoardKind.ofNumber? (headerOf data).number = some kind) :
    ∃ d : Description, d.bytes = data := by
  obtain ⟨flags, hfirst, hsecond⟩ := exists_flags hkind
  have htrainer : (headerOf data).trainer = flags.trainer := by
    have hheader := flags.header_eq (data.getD 4 0) (data.getD 5 0)
    rw [hfirst, hsecond] at hheader
    exact congrArg Header.trainer hheader
  -- the sections follow one another
  have hstart : headerSize ≤ (headerOf data).programStart := by
    unfold Header.programStart
    split <;> omega
  have hprogram : (headerOf data).programStart ≤ (headerOf data).patternStart :=
    Nat.le_add_right _ _
  have hpatterns : (headerOf data).patternStart ≤ (headerOf data).imageEnd :=
    Nat.le_add_right _ _
  let d : Description :=
    { flags, programUnits := data.getD 4 0, patternUnits := data.getD 5 0
      padding := ⟨data.extract 8 headerSize, by
        rw [Array.size_extract, Nat.min_eq_left hsize, headerSize]⟩
      front := data.extract headerSize (headerOf data).programStart
      program := data.extract (headerOf data).programStart (headerOf data).patternStart
      patterns := data.extract (headerOf data).patternStart (headerOf data).imageEnd
      trailing := data.extract (headerOf data).imageEnd data.size
      some_program := hunits
      front_size := by
        rw [Array.size_extract, Nat.min_eq_left (by omega), Header.programStart, htrainer]
        split <;> omega
      program_size := size_programSection hend
      patterns_size := size_patternSection hend }
  refine ⟨d, ?_⟩
  have hhead : d.head = data.extract 0 headerSize := by
    unfold Description.head
    simp only [d, hfirst, hsecond]
    rw [← hmagic, ← extract_bytes hsize, extract_append_extract _ (by decide) (by decide),
      extract_append_extract _ (by decide) (by decide)]
  unfold Description.bytes
  rw [hhead]
  simp only [d]
  rw [extract_append_extract _ (Nat.zero_le _) hstart,
    extract_append_extract _ (Nat.zero_le _) hprogram,
    extract_append_extract _ (Nat.zero_le _) hpatterns,
    extract_append_extract _ (Nat.zero_le _) hend, Array.extract_size]

/-- **Nothing else.** What is not the image of a description is refused, and the first
check that it fails names the reason. -/
theorem ofImage_refused (h : ∀ d : Description, d.bytes ≠ data) :
    ofImage data = .error (refusal data) := by
  unfold refusal
  by_cases hsize : data.size < headerSize
  · rw [if_pos hsize, ofImage, header?, if_pos hsize]
    rfl
  by_cases hmagic : data.extract 0 4 ≠ magic
  · rw [if_neg hsize, if_pos hmagic, ofImage, header?, if_neg hsize, if_pos hmagic]
    rfl
  have hheader : header? data = .ok (headerOf data) := by
    rw [header?, if_neg hsize, if_neg hmagic]
    rfl
  rw [ofImage_of_header hheader, if_neg hsize, if_neg hmagic, ← imageEnd_headerOf,
    ← number_headerOf]
  by_cases hend : data.size < (headerOf data).imageEnd
  · rw [if_pos hend, if_pos hend]
  rw [if_neg hend, if_neg hend]
  have hsection := size_programSection (Nat.not_lt.1 hend)
  by_cases hunits : byteAt data 4 = 0
  · rw [if_pos hunits]
    rw [hunits, Nat.zero_mul] at hsection
    exact build_empty hsection _ _ _ _
  rw [if_neg hunits]
  have hpositive := Nat.pos_of_ne_zero hunits
  cases hkind : BoardKind.ofNumber? (headerOf data).number with
  | none => exact build_unsupported (hsection ▸ Nat.mul_pos hpositive (by decide)) hkind _ _ _
  | some kind =>
      obtain ⟨d, hd⟩ := exists_description (Nat.not_lt.1 hsize) (Decidable.not_not.1 hmagic)
        (Nat.not_lt.1 hend) hpositive hkind
      exact absurd hd (h d)

/-- **Images, exactly.** The image of a program of 1 to 255 units, of 0 to 255 units of
patterns, of a board, a wiring and a battery, with a block in front of the program or
without, and with whatever else an image may hold, gives the cartridge with just these:
writable patterns, all zero, where there are none. All other bytes give an error, by the
first of the checks that they fail: the length of the header, the magic, the length that
the header announces, the program, the board. -/
theorem ofImage_exact :
    (∀ d : Description, ofImage d.bytes = .ok d.cartridge) ∧
    ∀ data : Array UInt8, (∀ d : Description, d.bytes ≠ data) →
      ofImage data = .error (refusal data) :=
  ⟨Description.ofImage_bytes, fun _ => ofImage_refused⟩

/-- One unit of zeros is a program. A bare header names an unknown board, and has no
program, which is noticed first. -/
theorem ofImage_exact_smallest :
    (∃ d : Description, d.program = Array.replicate 0x4000 0 ∧ d.patterns = #[] ∧
      d.flags.kind = .counting ∧ ofImage d.bytes = .ok d.cartridge) ∧
    ofImage #[0x4E, 0x45, 0x53, 0x1A, 0, 0, 0x20, 0, 0, 0, 0, 0, 0, 0, 0, 0] =
      .error .emptyProgram := by
  refine ⟨⟨{ flags :=
               { kind := .counting, wiring := .fourScreen, battery := true, trainer := false
                 spare := true, unused := 0, wired := .inr (.inr rfl) }
             programUnits := 1, patternUnits := 0, padding := .replicate 8 0, front := #[]
             program := Array.replicate 0x4000 0, patterns := #[], trailing := #[]
             some_program := by decide, front_size := rfl
             program_size := Array.size_replicate, patterns_size := rfl },
      rfl, rfl, rfl, ofImage_exact.1 _⟩, ?_⟩
  have hshort (d : Description) :
      d.bytes ≠ #[0x4E, 0x45, 0x53, 0x1A, 0, 0, 0x20, 0, 0, 0, 0, 0, 0, 0, 0, 0] := by
    intro h
    have hprogram := d.program_pos
    have hsize : d.bytes.size = 16 := congrArg Array.size h
    simp only [Description.bytes, Array.size_append, d.head_size, headerSize] at hsize
    omega
  exact (ofImage_exact.2 _ hshort).trans (congrArg Except.error (by decide))

end Image

end Famicom.Cartridge
