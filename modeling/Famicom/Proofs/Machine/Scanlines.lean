import Famicom.Proofs.Cartridge.Scanlines
import Famicom.Proofs.Machine.Reset
import Famicom.Proofs.Video.Blanking
import Mathlib.Data.List.Basic

/-!
# The lines that a board counts

The board follows the picture unit dot by dot. While the picture is rendered the beam
passes the place where a line is counted on 240 lines of the picture and on the one that
prepares the next picture, and it does so in a frame that is a dot short as well:

* **dots** — the board sees the dots of a run one after the other, and between them writes
  of the processor (`exists_history`);
* **frames** — the number of lines counted in a frame so far is known from the place of the
  beam (`Beam.InFrame.advance_cases`), and is 241 at its end (`Path.clocks_to_end`).

`scanline_requests` puts this together with the period of the requests.
-/

namespace Famicom.Video.Beam

variable {b : Beam}

/-! ## The place in a frame -/

/-- Dots behind the first one of the frame. -/
def position (b : Beam) : Nat := 341 * b.line.toNat + b.dot.toNat

/-- The lines counted in this frame so far, if it is rendered. -/
def linesCounted (b : Beam) : Nat :=
  min b.line.toNat 240 +
    if 280 ≤ b.dot.toNat ∧ ¬ (240 ≤ b.line.toNat ∧ b.line.toNat < 261) then 1 else 0

/-- The first dot of a frame. -/
def BeginsFrame (b : Beam) : Prop := b.line = 0 ∧ b.dot = 0

/-- The beam is in a frame that is rendered: if the frame is short, it ends one dot early. -/
structure InFrame (b : Beam) : Prop where
  line : b.line.toNat ≤ 261
  dot : b.dot.toNat ≤ 340
  short : b.odd = true → b.position ≤ 89340

theorem BeginsFrame.inFrame (h : b.BeginsFrame) : b.InFrame := by
  obtain ⟨hline, hdot⟩ := h
  refine ⟨?_, ?_, fun _ => ?_⟩
  · rw [hline]
    decide
  · rw [hdot]
    decide
  · rw [position, hline, hdot]
    decide

theorem counts_iff {line dot : UInt16} :
    Cartridge.CountingCircuit.counts line dot true = true ↔
      dot.toNat = 280 ∧ ¬ (240 ≤ line.toNat ∧ line.toNat < 261) := by
  simp only [Cartridge.CountingCircuit.counts, Bool.and_true, Bool.and_eq_true, beq_iff_eq,
    Bool.not_eq_true', Bool.and_eq_false_iff, decide_eq_false_iff_not, ← UInt16.toNat_inj,
    UInt16.le_iff_toNat_le, UInt16.lt_iff_toNat_lt, UInt16.reduceToNat]
  omega

theorem toNat_counts (line dot : UInt16) :
    (Cartridge.CountingCircuit.counts line dot true).toNat =
      if dot.toNat = 280 ∧ ¬ (240 ≤ line.toNat ∧ line.toNat < 261) then 1 else 0 := by
  split
  · rw [counts_iff.2 ‹_›]
    rfl
  · rw [Bool.eq_false_iff.2 (mt counts_iff.1 ‹_›)]
    rfl

/-- The second beam is one dot further in the same frame. -/
structure NextInFrame (b b' : Beam) : Prop where
  inFrame : b'.InFrame
  inside : ¬ b'.BeginsFrame
  odd : b'.odd = b.odd
  position : b'.position = b.position + 1
  linesCounted : b'.linesCounted =
    b.linesCounted + (Cartridge.CountingCircuit.counts b'.line b'.dot true).toNat

/-- The next dot of the line. -/
theorem InFrame.right (h : b.InFrame) (hdot : b.dot.toNat < 340)
    (hlast : b.odd = true → b.line.toNat = 261 → b.dot.toNat ≠ 339) :
    NextInFrame b { b with dot := b.dot + 1 } := by
  have hline := h.line
  have hnext := Word.toNat_succ (w := b.dot) (by omega)
  refine ⟨⟨hline, ?_, fun hodd => ?_⟩, ?_, rfl, ?_, ?_⟩
  · simp only [hnext]
    omega
  · have hbefore := h.short hodd
    have hnot := hlast hodd
    simp only [Beam.position, hnext] at hbefore ⊢
    omega
  · rintro ⟨-, hzero⟩
    simp only [← UInt16.toNat_inj, hnext, UInt16.reduceToNat] at hzero
    omega
  · simp only [Beam.position, hnext]
    omega
  · simp only [Beam.linesCounted, toNat_counts, hnext]
    split_ifs <;> omega

/-- The first dot of the next line, in which nothing is counted. -/
theorem InFrame.down (h : b.InFrame) (hdot : 340 ≤ b.dot.toNat) (hline : b.line.toNat < 261) :
    NextInFrame b { b with dot := 0, line := b.line + 1 } := by
  have hright := h.dot
  have hnext := Word.toNat_succ (w := b.line) (by omega)
  refine ⟨⟨?_, Nat.zero_le _, fun hodd => ?_⟩, ?_, rfl, ?_, ?_⟩
  · simp only [hnext]
    omega
  · simp only [Beam.position, hnext, UInt16.reduceToNat]
    omega
  · rintro ⟨hzero, -⟩
    simp only [← UInt16.toNat_inj, hnext, UInt16.reduceToNat] at hzero
    omega
  · simp only [Beam.position, hnext, UInt16.reduceToNat]
    omega
  · simp only [Beam.linesCounted, toNat_counts, hnext, UInt16.reduceToNat, Nat.reduceLeDiff,
      Nat.reduceEqDiff, false_and, if_false]
    split_ifs <;> omega

/-- While the picture is rendered, the next dot is the next one of the frame or begins
another frame. -/
theorem InFrame.advance_cases (h : b.InFrame) :
    NextInFrame b (b.advance true) ∨
    ((b.advance true).BeginsFrame ∧ b.linesCounted = 241 ∧
      b.position + 1 = if b.odd then 89341 else 89342) := by
  unfold advance
  split
  · -- the dot at the end of the frame is left out
    rename_i hlast
    simp only [Bool.true_and, Bool.and_eq_true, beq_iff_eq, preRenderLine] at hlast
    obtain ⟨⟨hodd, hl⟩, hd⟩ := hlast
    refine .inr ⟨⟨rfl, rfl⟩, ?_, ?_⟩
    · rw [linesCounted, hl, hd]
      rfl
    · rw [position, hl, hd, hodd]
      rfl
  rename_i hlast
  simp only [Bool.true_and, Bool.and_eq_true, beq_iff_eq, preRenderLine, ← UInt16.toNat_inj,
    UInt16.reduceToNat, not_and] at hlast
  split
  · rename_i hright
    simp only [lastDot, UInt16.lt_iff_toNat_lt, UInt16.reduceToNat] at hright
    exact .inl (h.right hright fun hodd hl => hlast ⟨hodd, hl⟩)
  rename_i hright
  simp only [lastDot, UInt16.lt_iff_toNat_lt, UInt16.reduceToNat, Nat.not_lt] at hright
  split
  · rename_i hdown
    simp only [preRenderLine, UInt16.lt_iff_toNat_lt, UInt16.reduceToNat] at hdown
    exact .inl (h.down hright hdown)
  · -- the end of a whole frame
    rename_i hdown
    simp only [preRenderLine, UInt16.lt_iff_toNat_lt, UInt16.reduceToNat, Nat.not_lt] at hdown
    have hl : b.line.toNat = 261 := Nat.le_antisymm h.line hdown
    have hd : b.dot.toNat = 340 := Nat.le_antisymm h.dot hright
    have heven : b.odd = false := by
      rw [Bool.eq_false_iff]
      intro hodd
      have hbefore := h.short hodd
      rw [position, hl, hd] at hbefore
      omega
    refine .inr ⟨⟨rfl, rfl⟩, ?_, ?_⟩
    · rw [linesCounted, hl, hd]
      rfl
    · rw [position, hl, hd, heven]
      rfl

end Famicom.Video.Beam

namespace Famicom.Machine

open Audio Cartridge Cpu Video

variable {m : Machine}

/-! ## Dots -/

/-- A dot of the picture, as the board follows it. -/
structure Dot where
  beam : Beam
  rendering : Bool

/-- What the board hears of the dot. -/
def Dot.event (d : Dot) : Board.Event := .step d.beam.line d.beam.dot d.rendering

/-- The beam goes from one place to another through these dots. -/
inductive Path : Beam → List Dot → Beam → Prop where
  | stay (b : Beam) : Path b [] b
  | advance {b b' : Beam} {rendering : Bool} {rest : List Dot}
      (h : Path (b.advance rendering) rest b') : Path b (⟨b.advance rendering, rendering⟩ :: rest) b'

namespace Path

variable {b b' b'' : Beam} {start next : Dot} {first second rest : List Dot}

theorem cons_inv (h : Path b (start :: rest) b') :
    start.beam = b.advance start.rendering ∧ Path start.beam rest b' := by
  cases h with
  | advance h => exact ⟨rfl, h⟩

theorem append (h : Path b first b') (h' : Path b' second b'') : Path b (first ++ second) b'' := by
  induction h with
  | stay => exact h'
  | advance _ ih => exact .advance (ih h')

/-- Behind a dot of the path the beam goes on from there. -/
theorem behind (h : Path b (first ++ start :: second) b') : Path start.beam second b' := by
  induction first generalizing b with
  | nil => exact h.cons_inv.2
  | cons d first ih => exact ih h.cons_inv.2

/-- A frame that is rendered supplies 241 clocks up to its end, those before included, and
has all its dots, or all but one. -/
theorem clocks_to_end (hpath : Path b (rest ++ next :: second) b') (hframe : b.InFrame)
    (hrest : ∀ d ∈ rest, d.rendering = true ∧ ¬ d.beam.BeginsFrame)
    (hnext : next.rendering = true ∧ next.beam.BeginsFrame) :
    b.linesCounted + rest.countP (fun d => d.event.clocks) = 241 ∧
      b.position + rest.length + 1 = if b.odd then 89341 else 89342 := by
  induction rest generalizing b with
  | nil =>
      have hlast := hpath.cons_inv.1
      rw [hnext.1] at hlast
      rcases hframe.advance_cases with ⟨-, hinside, -⟩ | ⟨-, hcounted, hposition⟩
      · exact absurd (hlast ▸ hnext.2) hinside
      · exact ⟨hcounted, hposition⟩
  | cons d rest ih =>
      obtain ⟨⟨hrendering, hinside⟩, hrest⟩ := List.forall_mem_cons.1 hrest
      obtain ⟨hbeam, hpath⟩ := hpath.cons_inv
      rw [hrendering] at hbeam
      rcases hframe.advance_cases with ⟨hframe, -, hodd, hposition, hcounted⟩ | ⟨hbegins, -⟩
      · rw [← hbeam] at hframe hodd hposition hcounted
        obtain ⟨hclocks, hlength⟩ := ih hpath hframe hrest
        have hclock : d.event.clocks = CountingCircuit.counts d.beam.line d.beam.dot true := by
          rw [Dot.event, Board.Event.clocks_step, hrendering]
        rw [hodd] at hlength
        rw [List.countP_cons, List.length_cons, hclock]
        refine ⟨?_, by rw [← hlength, hposition]; omega⟩
        rw [← hclocks, hcounted]
        cases CountingCircuit.counts d.beam.line d.beam.dot true
        · rfl
        · simp only [Bool.toNat_true, if_true]
          omega
      · exact absurd (hbeam ▸ hbegins) hinside

/-- Enough dots reach the next frame, as long as the picture is rendered. -/
theorem exists_next_frame (hpath : Path b rest b') (hframe : b.InFrame)
    (hrest : ∀ d ∈ rest, d.rendering = true)
    (hlong : (if b.odd then 89341 else 89342) ≤ b.position + rest.length) :
    ∃ frame next behind, rest = frame ++ next :: behind ∧ next.beam.BeginsFrame ∧
      ∀ d ∈ frame, ¬ d.beam.BeginsFrame := by
  induction rest generalizing b with
  | nil =>
      have hshort := hframe.short
      have hline := hframe.line
      have hdot := hframe.dot
      simp only [Beam.position, List.length_nil] at hlong hshort
      split at hlong
      · have hlast := hshort ‹_›
        omega
      · omega
  | cons d rest ih =>
      obtain ⟨hrendering, hrest⟩ := List.forall_mem_cons.1 hrest
      obtain ⟨hbeam, hpath⟩ := hpath.cons_inv
      rw [hrendering] at hbeam
      rcases hframe.advance_cases with ⟨hframe, hinside, hodd, hposition, -⟩ | ⟨hbegins, -⟩
      · rw [← hbeam] at hframe hinside hodd hposition
        rw [List.length_cons, ← hodd] at hlong
        obtain ⟨frame, next, behind, rfl, hnext, hframe⟩ :=
          ih hpath hframe hrest (by rw [hposition]; omega)
        exact ⟨d :: frame, next, behind, rfl, hnext, List.forall_mem_cons.2 ⟨hinside, hframe⟩⟩
      · exact ⟨[], d, rest, rfl, hbeam ▸ hbegins, fun _ h => absurd h List.not_mem_nil⟩

end Path

/-- The dots that the board follows while the picture catches up. -/
def dots : (count : Nat) → Machine → List Dot
  | 0, _ => []
  | n + 1, m =>
    { beam := m.tickPicture.bus.picture.beam, rendering := m.tickPicture.bus.picture.rendering } ::
      dots n m.tickPicture

/-- The dots that the board follows in some steps. -/
def dotsOfSteps : (steps : Nat) → Machine → List Dot
  | 0, _ => []
  | n + 1, m =>
    dotsOfSteps n m ++ dots (3 * (afterSteps n m).run.1.toNat) (afterSteps n m).beforeDots

theorem rendering_takeNmi (p : PictureUnit) : p.takeNmi.2.rendering = p.rendering :=
  congrArg (fun v : View => hasBits v.mask _) p.view_takeNmi

/-- A dot leaves the register alone that decides whether the picture is rendered. -/
theorem rendering_tickPicture (m : Machine) :
    m.tickPicture.bus.picture.rendering = m.bus.picture.rendering := by
  obtain ⟨v, hheld⟩ := m.bus.picture.holdings_tick m.bus.board
  have hmask : (m.bus.picture.tick m.bus.board).mask = m.bus.picture.mask :=
    congrArg Holdings.mask hheld
  rw [tickPicture_eq]
  show (m.bus.picture.tick m.bus.board).takeNmi.2.rendering = _
  rw [rendering_takeNmi, PictureUnit.rendering, hmask]
  rfl

theorem path_dots (count : Nat) (m : Machine) :
    Path m.bus.picture.beam (dots count m) (m.catchUpPicture count).bus.picture.beam := by
  induction count generalizing m with
  | zero => exact .stay _
  | succ n ih =>
      have hrest := ih m.tickPicture
      rw [dots]
      rw [beam_tickPicture, ← rendering_tickPicture] at hrest ⊢
      exact .advance hrest

theorem path_dotsOfSteps (steps : Nat) (m : Machine) :
    Path m.bus.picture.beam (dotsOfSteps steps m) (afterSteps steps m).bus.picture.beam := by
  induction steps with
  | zero => exact .stay _
  | succ n ih =>
      have hstep := path_dots (3 * (afterSteps n m).run.1.toNat) (afterSteps n m).beforeDots
      rw [beam_beforeDots] at hstep
      refine ih.append ?_
      show Path _ _ ((afterSteps n m).beforeDots.catchUpPicture
        (3 * (afterSteps n m).run.1.toNat)).requestIrq.bus.picture.beam
      rw [beam_requestIrq]
      exact hstep

/-! ## Histories of the board -/

/-- The event is a dot of the picture. -/
def isDot : Board.Event → Bool
  | .step _ _ _ => true
  | _ => false

/-- From one board to another by writes alone, of the processor and the picture unit. -/
def Written (before behind : Board) : Prop :=
  ∃ writes : List Board.Event, (∀ e ∈ writes, ¬ e.Imports ∧ isDot e = false) ∧
    behind = before.afterAll writes

namespace Bus

variable {start : Board} {b : Bus}

theorem board_read (address : UInt16) (b : Bus) : (b.read address).2.board = b.board := by
  unfold Bus.read
  split
  · rfl
  split
  · rfl
  split
  · unfold readDevice
    split <;> rfl
  · rfl

theorem board_writeDevice (address : UInt16) (value : UInt8) (b : Bus) :
    (b.writeDevice address value).board = b.board := by
  unfold writeDevice
  split
  · rfl
  · rfl
  split <;> rfl

/-- One more write. -/
theorem written_snoc (h : Written start b.board) {e : Board.Event}
    (he : ¬ e.Imports ∧ isDot e = false) : Written start (b.board.after e) := by
  obtain ⟨writes, hwrites, heq⟩ := h
  refine ⟨writes ++ [e], List.forall_mem_append.2 ⟨hwrites, List.forall_mem_singleton.2 he⟩, ?_⟩
  rw [Board.afterAll_append, heq]
  rfl

/-- What the processor does to the bus reaches the board as writes. -/
theorem written_invariant (start : Board) : Invariant fun b : Bus => Written start b.board where
  read address b h := (b.board_read address).symm ▸ h
  write address value b h := by
    show Written start (b.write address value).board
    unfold Bus.write
    split
    · exact h
    split
    · show Written start (b.picture.writeRegister b.board address value).2
      rcases writeRegister_board b.picture b.board address value with hboard | hboard
      · rw [hboard]
        exact h
      · rw [hboard, PictureUnit.store]
        simp only []
        split
        · exact written_snoc h (e := .writePattern _ _) ⟨id, rfl⟩
        split
        · exact h
        · exact h
    split
    · rw [board_writeDevice]
      exact h
    · exact written_snoc h (e := .write address value) ⟨id, rfl⟩

end Bus

theorem board_copySprites (n : Nat) (source : UInt16) (target : UInt8) (b : Bus) :
    (copySprites n source target b).board = b.board := by
  induction n generalizing source target b with
  | zero => rfl
  | succ n ih =>
      rw [copySprites_succ, ih]
      exact Bus.board_read source b

theorem board_transferSprites (m : Machine) : m.transferSprites.bus.board = m.bus.board := by
  unfold transferSprites
  split
  · rfl
  · exact board_copySprites _ _ _ _

theorem board_tickSound (m : Machine) : m.tickSound.bus.board = m.bus.board := by
  unfold tickSound fetchSample
  split
  · rfl
  · exact Bus.board_read _ _

theorem board_catchUpSound (cycles : Nat) (m : Machine) :
    (m.catchUpSound cycles).bus.board = m.bus.board := by
  induction cycles generalizing m with
  | zero => rfl
  | succ n ih => exact (ih m.tickSound).trans m.board_tickSound

/-- Until the picture unit begins to follow a step, the board is written to. -/
theorem written_beforeDots (m : Machine) : Written m.bus.board m.beforeDots.bus.board := by
  unfold beforeDots
  rw [board_catchUpSound, board_transferSprites]
  exact step_invariant (Bus.written_invariant m.bus.board) m.cpu
    ⟨[], fun _ h => absurd h List.not_mem_nil, rfl⟩

theorem board_requestIrq (m : Machine) : m.requestIrq.bus.board = m.bus.board := by
  unfold requestIrq
  split <;> rfl

theorem board_catchUpPicture (count : Nat) (m : Machine) :
    (m.catchUpPicture count).bus.board = m.bus.board.afterAll ((dots count m).map Dot.event) := by
  induction count generalizing m with
  | zero => rfl
  | succ n ih =>
      have hdot : m.tickPicture.bus.board = m.bus.board.step m.tickPicture.bus.picture.beam.line
          m.tickPicture.bus.picture.beam.dot m.tickPicture.bus.picture.rendering := by
        rw [tickPicture_eq]
        show m.bus.board.step _ _ _ = m.bus.board.step
          (m.bus.picture.tick m.bus.board).takeNmi.2.beam.line
          (m.bus.picture.tick m.bus.board).takeNmi.2.beam.dot
          (m.bus.picture.tick m.bus.board).takeNmi.2.rendering
        rw [PictureUnit.beam_takeNmi, rendering_takeNmi]
      rw [dots, List.map_cons, Board.afterAll_cons]
      show (m.tickPicture.catchUpPicture n).bus.board = _
      rw [ih, hdot]
      rfl

/-- The history of a board in some steps of its machine consists of writes and of the dots
that it follows. -/
theorem exists_history (steps : Nat) (m : Machine) :
    ∃ history : List Board.Event,
      (afterSteps steps m).bus.board = m.bus.board.afterAll history ∧
        (∀ e ∈ history, ¬ e.Imports) ∧
        history.filter isDot = (dotsOfSteps steps m).map Dot.event := by
  induction steps with
  | zero => exact ⟨[], rfl, fun _ h => absurd h List.not_mem_nil, rfl⟩
  | succ n ih =>
      obtain ⟨history, hboard, hplain, hdots⟩ := ih
      obtain ⟨writes, hwrites, hwritten⟩ := written_beforeDots (afterSteps n m)
      let behind := (dots (3 * (afterSteps n m).run.1.toNat) (afterSteps n m).beforeDots).map
        Dot.event
      refine ⟨history ++ (writes ++ behind), ?_, ?_, ?_⟩
      · show ((afterSteps n m).beforeDots.catchUpPicture
          (3 * (afterSteps n m).run.1.toNat)).requestIrq.bus.board = _
        rw [board_requestIrq, board_catchUpPicture, hwritten, hboard, Board.afterAll_append,
          Board.afterAll_append]
      · refine List.forall_mem_append.2 ⟨hplain, List.forall_mem_append.2
          ⟨fun e he => (hwrites e he).1, fun e he => ?_⟩⟩
        obtain ⟨d, -, rfl⟩ := List.mem_map.1 he
        exact id
      · have hnone : writes.filter isDot = [] :=
          List.filter_eq_nil_iff.2 fun e he => by rw [(hwrites e he).2]; exact Bool.false_ne_true
        have hall : behind.filter isDot = behind := List.filter_eq_self.2 fun e he => by
          obtain ⟨d, -, rfl⟩ := List.mem_map.1 he
          rfl
        rw [List.filter_append, List.filter_append, hdots, hnone, hall, List.nil_append,
          dotsOfSteps, List.map_append]

/-! ## A machine that waits -/

theorem rendering_dots (count : Nat) (m : Machine) :
    (m.catchUpPicture count).bus.picture.rendering = m.bus.picture.rendering ∧
      (dots count m).length = count ∧
      ∀ d ∈ dots count m, d.rendering = m.bus.picture.rendering := by
  induction count generalizing m with
  | zero => exact ⟨rfl, rfl, fun _ h => absurd h List.not_mem_nil⟩
  | succ n ih =>
      obtain ⟨hbehind, hlength, hdots⟩ := ih m.tickPicture
      rw [rendering_tickPicture] at hbehind hdots
      refine ⟨hbehind, congrArg Nat.succ hlength, ?_⟩
      exact List.forall_mem_cons.2 ⟨rendering_tickPicture m, hdots⟩

/-- While a machine waits for its reset, nobody changes what is rendered. -/
theorem Awaiting.rendering_beforeDots {p : Processor} {byte : UInt16 → UInt8}
    (h : Awaiting p byte m) (hstall : 0 < p.stall) :
    m.run.1 = 1 ∧ m.beforeDots.bus.picture.rendering = m.bus.picture.rendering := by
  have hone := (h.run hstall).1
  obtain ⟨rfl, -, hidle, hstopped, -⟩ := h
  have hwaits := stepCpu_stalled hstall
  have hstill : m.stepCpu.2.bus.transferPage = none := by
    rw [hwaits]
    exact hidle
  have hrequest : m.bus.sound.tick.request? = none :=
    SoundUnit.request_stopped ((SoundUnit.remaining_tick m.bus.sound).trans hstopped)
  refine ⟨hone, ?_⟩
  rw [beforeDots, hone, transferSprites_idle hstill, hwaits]
  show (Machine.tickSound _).bus.picture.rendering = _
  simp only [Machine.tickSound, fetchSample, hrequest]

theorem Awaiting.rendering_dotsOfSteps {p : Processor} {byte : UInt16 → UInt8}
    (h : Awaiting p byte m) {steps : Nat} (hsteps : steps ≤ p.stall.toNat) :
    (afterSteps steps m).bus.picture.rendering = m.bus.picture.rendering ∧
      (dotsOfSteps steps m).length = 3 * steps ∧
      ∀ d ∈ dotsOfSteps steps m, d.rendering = m.bus.picture.rendering := by
  induction steps with
  | zero => exact ⟨rfl, rfl, fun _ h => absurd h List.not_mem_nil⟩
  | succ n ih =>
      obtain ⟨hbehind, hlength, hdots⟩ := ih (Nat.le_of_succ_le hsteps)
      have hstall : 0 < (waited p n).stall := by
        rw [UInt32.lt_iff_toNat_lt, toNat_stall_waited]
        exact Nat.sub_pos_of_lt hsteps
      obtain ⟨hone, hbefore⟩ :=
        (awaiting_afterSteps h (Nat.le_of_succ_le hsteps)).rendering_beforeDots hstall
      obtain ⟨hend, hcount, hmore⟩ :=
        rendering_dots (3 * (afterSteps n m).run.1.toNat) (afterSteps n m).beforeDots
      rw [hbefore, hbehind] at hend hmore
      refine ⟨?_, ?_, List.forall_mem_append.2 ⟨hdots, hmore⟩⟩
      · show ((afterSteps n m).beforeDots.catchUpPicture
          (3 * (afterSteps n m).run.1.toNat)).requestIrq.bus.picture.rendering = _
        obtain ⟨-, heq⟩ | ⟨-, heq⟩ := requestIrq_cases ((afterSteps n m).beforeDots.catchUpPicture
          (3 * (afterSteps n m).run.1.toNat))
        · rw [heq]
          exact hend
        · rw [heq]
          exact hend
      · rw [dotsOfSteps, List.length_append, hlength, hcount, hone]
        rfl

/-! ## Requests -/

/-- **Requests of the counting board.**

Behind the setup of its counter there is no request. Whatever else happens then, as long as
it leaves the counter alone, the next line requests an interrupt exactly if requests are
enabled, the reload value is not zero, and the number of the line is a multiple of the
reload value plus one.

A request stays through everything but a write that disables requests.

A board in a machine hears of writes and of the dots of the picture, and in each frame that
is rendered 241 of its dots count a line, whether the frame has all its dots or is one dot
short. -/
theorem scanline_requests :
    (∀ (b : Board) (reload : UInt8) (values : Fin 3 → UInt8)
        (between : Fin 3 → List Board.Event) (events : List Board.Event) (line : UInt16),
      b.circuit.kind = .counting → (∀ e ∈ between 0, e.Quiet) →
      (∀ i > 0, ∀ e ∈ between i, e.Quiet ∧ e.clocks = false) → (∀ e ∈ events, e.Quiet) →
      ¬ (240 ≤ line ∧ line ≤ 260) →
      let start := b.afterAll (Board.setup reload values between)
      let before := start.afterAll events
      start.request = false ∧
        ((before.step line 280 true).request = true ↔
          before.request = true ∨
            (Board.Event.gateAfterAll true events = true ∧ 1 ≤ reload ∧
              reload.toNat + 1 ∣ events.countP Board.Event.clocks + 1))) ∧
    (∀ (b : Board) (events : List Board.Event), b.request = true →
      (∀ e ∈ events, ¬ e.Loads ∧ e.gate? ≠ some false) → (b.afterAll events).request = true) ∧
    (∀ (b : Board) (address : UInt16) (value : UInt8), b.request = true → 0xE000 ≤ address →
      address &&& 0x01 = 0 → (b.write address value).request = false) ∧
    (∀ (m : Machine) (steps : Nat), ∃ history : List Board.Event,
      (afterSteps steps m).bus.board = m.bus.board.afterAll history ∧
        (∀ e ∈ history, ¬ e.Imports) ∧
        history.filter isDot = (dotsOfSteps steps m).map Dot.event) ∧
    ∀ (m : Machine) (steps : Nat) (before rest behind : List Dot) (start next : Dot),
      dotsOfSteps steps m = before ++ start :: (rest ++ next :: behind) →
      start.beam.BeginsFrame → next.beam.BeginsFrame → (∀ d ∈ rest, ¬ d.beam.BeginsFrame) →
      (∀ d ∈ rest ++ [next], d.rendering = true) →
      (start :: rest).countP (fun d => d.event.clocks) = 241 ∧
        (start :: rest).length = if start.beam.odd then 89341 else 89342 := by
  refine ⟨?_, fun b events h hevents => Board.request_afterAll h hevents, ?_,
    fun m steps => exists_history steps m, ?_⟩
  · intro b reload values between events line hkind hfirst hidle hevents hline start before
    refine ⟨(Board.counts_setup hkind reload values hfirst hidle).2, ?_⟩
    have hclocks : (Board.Event.step line 280 true).clocks = true :=
      decide_eq_true ⟨rfl, rfl, hline⟩
    have hrequest := Board.request_setup hkind reload values hfirst hidle hevents hclocks
    rw [Board.afterAll_append] at hrequest
    exact hrequest
  · intro b address value h hupper heven
    have hgate : (Board.Event.write address value).gate? = some false := by
      rw [Board.Event.gate?_above hupper, heven]
      rfl
    exact Bool.eq_false_iff.2 fun hstays =>
      (Board.request_after_iff h (e := .write address value) id).1 hstays hgate
  · intro m steps before rest behind start next hdots hstart hnext hinside hrendering
    obtain ⟨hrest, hlast⟩ := List.forall_mem_append.1 hrendering
    have hpath : Path start.beam (rest ++ next :: behind) (afterSteps steps m).bus.picture.beam :=
      (hdots ▸ path_dotsOfSteps steps m).behind
    obtain ⟨hclocks, hlength⟩ := hpath.clocks_to_end hstart.inFrame
      (fun d hd => ⟨hrest d hd, hinside d hd⟩) ⟨hlast next (List.mem_singleton.2 rfl), hnext⟩
    obtain ⟨hline, hdot⟩ := hstart
    -- the first dot itself counts no line
    have hfirst : start.event.clocks = false := by
      simp only [Dot.event, Board.Event.clocks, hdot]
      rfl
    have hzero : start.beam.linesCounted = 0 ∧ start.beam.position = 0 := by
      rw [Beam.linesCounted, Beam.position, hline, hdot]
      decide
    rw [hzero.1, Nat.zero_add] at hclocks
    rw [hzero.2, Nat.zero_add] at hlength
    refine ⟨?_, hlength⟩
    rw [List.countP_cons_of_neg (by rw [hfirst]; exact Bool.false_ne_true)]
    exact hclocks

/-- A machine that waits for a long time, with its beam in front of a frame that is
rendered. -/
def longWait : Machine :=
  { cpu := { Processor.powerOff with stall := 30000, pending := some .reset }
    bus :=
      { Bus.powerOn (.ofCartridge (.minimal .counting)) defaultRate with
        picture :=
          { PictureUnit.powerOn with
            mask := maskBackground
            beam := { line := 261, dot := 340, frame := 0, odd := false } } } }

/-- With one as the reload value the second line requests an interrupt, which outlives a
bank write and not a write to $E000. And while a machine waits, a short frame supplies its
clocks. -/
theorem scanline_requests_second_line :
    let b := Board.ofCartridge (.minimal .counting)
    let first := b.afterAll (Board.setup 1 (fun _ => 0) fun _ => []) |>.afterAll [.step 0 280 true]
    let second := first.step 1 280 true
    second.request = true ∧ (second.afterAll [.write 0x8000 0]).request = true ∧
      (second.write 0xE000 0).request = false ∧
      ∃ (rest behind : List Dot) (start next : Dot),
        dotsOfSteps 29781 longWait = start :: (rest ++ next :: behind) ∧
          start.beam.odd = true ∧ next.beam.BeginsFrame ∧
          (start :: rest).countP (fun d => d.event.clocks) = 241 ∧
          (start :: rest).length = 89341 := by
  intro b first second
  obtain ⟨hperiod, hstays, hcloses, -, hframe⟩ := scanline_requests
  have hquiet : Board.Event.Quiet (.step 0 280 true) := ⟨id, rfl⟩
  have hnone {P : Board.Event → Prop} : ∀ e ∈ ([] : List Board.Event), P e :=
    fun _ h => absurd h List.not_mem_nil
  have hsecond : second.request = true :=
    (hperiod b 1 (fun _ => 0) (fun _ => []) [.step 0 280 true] 1 rfl hnone (fun _ _ => hnone)
      (List.forall_mem_singleton.2 hquiet) (by decide)).2.2 (.inr (by decide))
  refine ⟨hsecond, hstays second _ hsecond (List.forall_mem_singleton.2 ⟨id, by decide⟩),
    hcloses second 0xE000 0 hsecond (by decide) (by decide), ?_⟩
  have hawaiting : Awaiting longWait.cpu longWait.bus.board.read longWait :=
    ⟨rfl, rfl, rfl, rfl, fun _ => rfl⟩
  have hon : longWait.bus.picture.rendering = true := by decide
  obtain ⟨steps, hsteps⟩ : ∃ steps, steps = 29781 := ⟨_, rfl⟩
  rw [← hsteps]
  have hwait : steps ≤ longWait.cpu.stall.toNat := hsteps ▸ by decide
  obtain ⟨-, hlength, hrendering⟩ := hawaiting.rendering_dotsOfSteps hwait
  obtain ⟨start, rest, hdots⟩ := List.exists_cons_of_length_pos (l := dotsOfSteps steps longWait)
    (by omega)
  have hpath := path_dotsOfSteps steps longWait
  rw [hdots, hon] at hrendering
  rw [hdots] at hlength hpath
  obtain ⟨hbeam, hpath⟩ := hpath.cons_inv
  obtain ⟨hstart, hrest⟩ := List.forall_mem_cons.1 hrendering
  have hodd : start.beam.odd = true ∧ start.beam.BeginsFrame := by
    rw [hbeam, hstart]
    exact ⟨rfl, rfl, rfl⟩
  rw [List.length_cons] at hlength
  have hlong : (if start.beam.odd then 89341 else 89342) ≤ start.beam.position + rest.length := by
    rw [if_pos hodd.1]
    omega
  obtain ⟨frame, next, behind, rfl, hnext, hinside⟩ :=
    hpath.exists_next_frame hodd.2.inFrame hrest hlong
  have hframe := hframe longWait steps [] frame behind start next hdots hodd.2 hnext hinside
    fun d hd => hrest d (by
      rw [List.mem_append, List.mem_singleton] at hd
      rw [List.mem_append, List.mem_cons]
      exact hd.imp id .inl)
  rw [if_pos hodd.1] at hframe
  exact ⟨frame, behind, start, next, hdots, hodd.1, hnext, hframe⟩

end Famicom.Machine
