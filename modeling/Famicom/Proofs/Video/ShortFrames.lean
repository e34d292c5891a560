import Famicom.Proofs.Video.Blanking
import Famicom.Proofs.Video.Drawing
import Famicom.Proofs.Video.Interrupt

/-!
# Which frames are a dot short

While something is shown, every other frame is a dot short. The beam keeps a bit for that,
beside its count of frames. A frame that begins turns the bit and adds one to the count. A
reset clears the count and leaves the bit alone:

* **steps** — so the bit is the parity of the count and of all that resets have taken out of
  it (`ShortFrames.Counts.after`, `ShortFrames.Counts.afterAll`);
* **law** — a frame is short if the count is odd together with what was forgotten, so that the
  odd frames are the short ones for as long as the resets have forgotten an even number of
  frames (`ShortFrames.skips_iff_odd`).

A reset in a frame with an odd number makes the frames with even numbers short from then on
(`ShortFrames.even_frame_skips`).
-/

namespace Famicom.Video

open Cartridge

/-! ## The beam -/

namespace Beam

/-- A tick leaves the number of the frame and its bit alone, or begins the next frame. -/
theorem count_advance (rendering : Bool) (b : Beam) :
    ((b.advance rendering).frame = b.frame ∧ (b.advance rendering).odd = b.odd) ∨
      b.advance rendering = b.nextFrame := by
  unfold advance
  split
  · exact .inr rfl
  split
  · exact .inl ⟨rfl, rfl⟩
  split
  · exact .inl ⟨rfl, rfl⟩
  · exact .inr rfl

/-- From the last dot but one of the line before the picture there are two ways. -/
theorem advance_late {b : Beam} (hline : b.line = preRenderLine) (hdot : b.dot = 339)
    (rendering : Bool) :
    b.advance rendering = if rendering && b.odd then b.nextFrame else { b with dot := lastDot } := by
  have hroom : b.dot < lastDot := by
    rw [hdot]
    decide
  unfold advance
  rw [hline, beq_self_eq_true, Bool.and_true, hdot, beq_self_eq_true, Bool.and_true]
  split
  · rfl
  · rw [if_pos (hdot ▸ hroom)]
    rfl

end Beam

namespace PictureUnit

variable {p : PictureUnit} {t : Nat}

/-- No dot is left out while nothing is shown, nor anywhere but at the last dot but one of a
frame. -/
theorem atTime_tick (h : p.beam.AtTime t)
    (ht : p.rendering = true → t % Beam.dotsPerFrame ≠ 89340) (b : Board) :
    (p.tick b).beam.AtTime (t + 1) := by
  have hskips : p.beam.skips (p.beam.advance p.rendering) = false := by
    cases hrendering : p.rendering with
    | false => exact p.beam.not_skips
    | true => exact Bool.eq_false_iff.2 fun hskips => ht hrendering (h.of_skips hskips)
  have hnext := h.advance p.rendering
  rw [hskips] at hnext
  rw [beam_tick]
  exact hnext

/-- A dot leaves the register alone that says what is shown. -/
theorem mask_tick (p : PictureUnit) (b : Board) : (p.tick b).mask = p.mask := by
  obtain ⟨v, hheld⟩ := p.holdings_tick b
  exact congrArg Holdings.mask hheld

end PictureUnit

namespace ShortFrames

open PictureUnit Beam

/-! ## Histories -/

/-- What happens to a picture unit: a dot, with the board that is there at the moment, an
access of the processor, or a reset. -/
inductive Event where
  | dot (board : Board)
  | access (a : Script.Access)
  | reset

/-- The picture unit behind an event. -/
def Event.after (p : PictureUnit) : Event → PictureUnit
  | .dot board => p.tick board
  | .access a => a.apply p
  | .reset => p.reset

/-- The picture unit behind some events. -/
def afterAll (p : PictureUnit) (events : List Event) : PictureUnit :=
  events.foldl (fun q e => e.after q) p

/-- The frames that an event takes out of the count. -/
def Event.forgets (p : PictureUnit) : Event → Nat
  | .reset => p.beam.frame.toNat
  | _ => 0

/-- The frames that were counted, and taken out of the count by resets. -/
def forgotten (p : PictureUnit) : List Event → Nat
  | [] => 0
  | e :: rest => e.forgets p + forgotten (e.after p) rest

theorem Event.after_reset (p : PictureUnit) : Event.after p .reset = p.reset := rfl

theorem Event.forgets_reset (p : PictureUnit) : Event.forgets p .reset = p.beam.frame.toNat := rfl

theorem afterAll_cons (p : PictureUnit) (event : Event) (rest : List Event) :
    afterAll p (event :: rest) = afterAll (event.after p) rest :=
  rfl

theorem afterAll_append (p : PictureUnit) (first second : List Event) :
    afterAll p (first ++ second) = afterAll (afterAll p first) second :=
  List.foldl_append

/-! ## Parity -/

/-- The bit of the beam is the parity of the frames in the count and of those that were taken
out of it. -/
def Counts (forgotten : Nat) (b : Beam) : Prop :=
  b.odd = true ↔ (b.frame.toNat + forgotten) % 2 = 1

variable {p : PictureUnit} {lost : Nat}

/-- The next frame is odd if this one is even. The count has 64 bits, so that it keeps its
parity where it wraps around. -/
theorem Counts.nextFrame {b : Beam} (h : Counts lost b) : Counts lost b.nextFrame := by
  have hsucc : (b.frame + 1).toNat = (b.frame.toNat + 1) % 2 ^ 64 := UInt64.toNat_add _ _
  show (!b.odd) = true ↔ ((b.frame + 1).toNat + lost) % 2 = 1
  unfold Counts at h
  rw [hsucc]
  cases hodd : b.odd with
  | true =>
      have := h.1 hodd
      simp only [Bool.not_true, Bool.false_eq_true, false_iff]
      omega
  | false =>
      have : ¬ (b.frame.toNat + lost) % 2 = 1 := fun hparity =>
        absurd (hodd.symm.trans (h.2 hparity)) Bool.false_ne_true
      simp only [Bool.not_false, true_iff]
      omega

theorem Counts.advance {b : Beam} (h : Counts lost b) (rendering : Bool) :
    Counts lost (b.advance rendering) := by
  rcases count_advance rendering b with ⟨hframe, hodd⟩ | hnext
  · unfold Counts
    rw [hframe, hodd]
    exact h
  · rw [hnext]
    exact h.nextFrame

/-- **Every event keeps the parity.** A reset clears the count and keeps the bit, and what
it takes out of the count is remembered. -/
theorem Counts.after (h : Counts lost p.beam) (event : Event) :
    Counts (lost + event.forgets p) (event.after p).beam := by
  cases event with
  | dot board =>
      show Counts (lost + 0) (p.tick board).beam
      rw [beam_tick]
      exact h.advance p.rendering
  | access a =>
      show Counts (lost + 0) (a.apply p).beam
      rw [(a.apply_frame p).1]
      exact h
  | reset =>
      show p.beam.odd = true ↔ (0 + (lost + p.beam.frame.toNat)) % 2 = 1
      rw [Nat.zero_add, Nat.add_comm]
      exact h

theorem Counts.afterAll (h : Counts lost p.beam) (events : List Event) :
    Counts (lost + forgotten p events) (afterAll p events).beam := by
  -- the frames that were forgotten so far go along with the picture unit
  induction events generalizing p lost with
  | nil => exact h
  | cons event rest ih =>
      have hrest := ih (h.after event)
      rw [Nat.add_assoc] at hrest
      exact hrest

theorem counts_powerOn : Counts 0 PictureUnit.powerOn.beam :=
  iff_of_false (by decide) (by decide)

/-- The parity behind any history from power-on. -/
theorem counts (events : List Event) :
    Counts (forgotten .powerOn events) (ShortFrames.afterAll .powerOn events).beam := by
  have hcounts := counts_powerOn.afterAll events
  rwa [Nat.zero_add] at hcounts

/-- Without a reset nothing is forgotten. -/
theorem forgotten_eq_zero (p : PictureUnit) {events : List Event} (h : .reset ∉ events) :
    forgotten p events = 0 := by
  induction events generalizing p with
  | nil => rfl
  | cons event rest ih =>
      have hevent : .reset ≠ event := List.ne_of_not_mem_cons h
      have hrest : .reset ∉ rest := List.not_mem_of_not_mem_cons h
      have hnone : event.forgets p = 0 := by
        cases event with
        | reset => exact absurd rfl hevent
        | dot board => rfl
        | access a => rfl
      show event.forgets p + forgotten (event.after p) rest = 0
      rw [hnone, ih (event.after p) hrest]

/-! ## Short frames -/

/-- The beam is in the upper left corner. -/
def AtCorner (p : PictureUnit) : Prop := p.beam.line = 0 ∧ p.beam.dot = 0

/-- From the last dot but one of the line before the picture the next dot leads to the corner
if the bit says so, and else to the last dot of the line. -/
theorem tick_late (hline : p.beam.line = preRenderLine) (hdot : p.beam.dot = 339) (b : Board) :
    (AtCorner (p.tick b) ↔ p.rendering = true ∧ p.beam.odd = true) ∧
      (¬ AtCorner (p.tick b) →
        (p.tick b).beam.line = preRenderLine ∧ (p.tick b).beam.dot = lastDot) := by
  have hbeam : (p.tick b).beam =
      if p.rendering && p.beam.odd then p.beam.nextFrame else { p.beam with dot := lastDot } := by
    rw [beam_tick, advance_late hline hdot]
  rw [← Bool.and_eq_true]
  unfold AtCorner
  rw [hbeam]
  cases p.rendering && p.beam.odd with
  | true =>
      refine ⟨iff_of_true ⟨rfl, rfl⟩ rfl, fun hcorner => ?_⟩
      exact absurd ⟨rfl, rfl⟩ hcorner
  | false =>
      refine ⟨iff_of_false ?_ Bool.false_ne_true, fun _ => ⟨hline, rfl⟩⟩
      rintro ⟨-, hlast⟩
      have hlast : lastDot = 0 := hlast
      exact absurd hlast (by decide)

/-- **The short frames.** A picture unit is switched on, and dots, accesses and resets follow
in any order, with any boards. Let the beam be at the last dot but one of the line before the
picture.

* The next dot leads to the upper left corner if something is shown and the number of the
  frame is odd together with the frames that resets have taken out of the count. If not, it
  leads to the last dot of the line.
* So the number of the frame alone decides, if it is to be shown something, exactly if the
  number of frames that were forgotten is even, as it is without resets. -/
theorem skips_iff_odd (events : List Event) (board : Board) :
    let p := ShortFrames.afterAll .powerOn events
    let lost := forgotten .powerOn events
    p.beam.line = preRenderLine → p.beam.dot = 339 →
      (AtCorner (p.tick board) ↔
        p.rendering = true ∧ (p.beam.frame.toNat + lost) % 2 = 1) ∧
      (¬ AtCorner (p.tick board) →
        (p.tick board).beam.line = preRenderLine ∧ (p.tick board).beam.dot = lastDot) ∧
      ((AtCorner (p.tick board) ↔ p.rendering = true ∧ p.beam.frame.toNat % 2 = 1) ↔
        (p.rendering = true → lost % 2 = 0)) ∧
      (.reset ∉ events → lost = 0) := by
  intro p lost hline hdot
  have hcounts : Counts lost p.beam := counts events
  obtain ⟨hcorner, helse⟩ := tick_late hline hdot board
  rw [show p.beam.odd = true ↔ _ from hcounts] at hcorner
  refine ⟨hcorner, helse, ?_, forgotten_eq_zero _⟩
  rw [hcorner, and_congr_right_iff]
  refine forall_congr' fun _ => ?_
  omega

/-! ## Runs of dots -/

/-- Dots with the same board. There may be thousands of them, so they are not unfolded. -/
@[irreducible] def dots (board : Board) (n : Nat) : List Event := List.replicate n (.dot board)

theorem dots_zero (board : Board) : dots board 0 = [] := by
  unfold dots
  rfl

theorem dots_succ (board : Board) (n : Nat) :
    dots board (n + 1) = .dot board :: dots board n := by
  unfold dots
  rfl

theorem reset_not_mem_dots (board : Board) (n : Nat) : .reset ∉ dots board n := by
  unfold dots
  intro hmem
  exact nomatch List.eq_of_mem_replicate hmem

/-- Dots take the time of their number, if none is left out, and change nothing about what is
shown. -/
theorem afterAll_dots {t n : Nat} (h : p.beam.AtTime t)
    (hn : p.rendering = true → t % dotsPerFrame + n ≤ 89340) (board : Board) :
    (ShortFrames.afterAll p (dots board n)).beam.AtTime (t + n) ∧
      (ShortFrames.afterAll p (dots board n)).mask = p.mask := by
  induction n generalizing p t with
  | zero =>
      rw [dots_zero]
      exact ⟨h, rfl⟩
  | succ n ih =>
      have hrendering : (p.tick board).rendering = p.rendering := by
        rw [rendering, mask_tick]
        rfl
      have hearly : p.rendering = true → t % dotsPerFrame ≠ 89340 := by
        intro hshown
        have := hn hshown
        omega
      have hlater : (p.tick board).rendering = true → (t + 1) % dotsPerFrame + n ≤ 89340 := by
        intro hshown
        have := hn (hrendering ▸ hshown)
        simp only [dotsPerFrame] at this ⊢
        omega
      obtain ⟨htime, hmask⟩ := ih (atTime_tick h hearly board) hlater
      rw [dots_succ, afterAll_cons, Nat.add_comm n 1, ← Nat.add_assoc]
      exact ⟨htime, hmask.trans (mask_tick p board)⟩

/-- A linear board without anything on it. -/
def emptyBoard : Board := .ofCartridge (.minimal .linear)

/-- The background is switched on, and some dots follow. -/
def shown (n : Nat) : List Event :=
  .access (.write emptyBoard 1 0x08) :: dots emptyBoard n

theorem reset_not_mem_shown (n : Nat) : .reset ∉ shown n := by
  intro hmem
  rcases List.mem_cons.1 hmem with hevent | hdots
  · exact nomatch hevent
  · exact reset_not_mem_dots emptyBoard n hdots

/-- Dots lead to the last one but one of the line before the picture. -/
theorem late_shown {t n : Nat} (h : p.beam.AtTime t) (hn : t % dotsPerFrame + n = 89340) :
    let q := ShortFrames.afterAll p (shown n)
    q.beam.line = preRenderLine ∧ q.beam.dot = 339 ∧ q.rendering = true ∧
      q.beam.frame = .ofNat (t / dotsPerFrame) := by
  intro q
  have hwrite : (Event.after p (.access (.write emptyBoard 1 0x08))).beam.AtTime t := h
  obtain ⟨htime, hmask⟩ := afterAll_dots hwrite (fun _ => Nat.le_of_eq hn) emptyBoard
  have hq : q = ShortFrames.afterAll (Event.after p (.access (.write emptyBoard 1 0x08)))
      (dots emptyBoard n) := afterAll_cons ..
  rw [← hq] at htime hmask
  obtain ⟨hframe, hplace⟩ := htime.frame_place
  obtain ⟨hline, hdot⟩ := htime.onPicture
  simp only [preRenderLine, lastDot, UInt16.le_iff_toNat_le, UInt16.reduceToNat] at hline hdot
  simp only [dotsPerFrame] at hn hframe hplace ⊢
  have hline : q.beam.line.toNat = 261 := by omega
  have hdot : q.beam.dot.toNat = 339 := by omega
  have hquotient : (t + n) / 89342 = t / 89342 := by omega
  rw [hquotient] at hframe
  refine ⟨UInt16.toNat_inj.1 hline, UInt16.toNat_inj.1 hdot, ?_, hframe⟩
  rw [rendering, hmask]
  show hasBits 0x08 (maskBackground ||| maskSprites) = true
  decide

/-- A reset leads to the last dot before vertical blanking. -/
theorem atTime_reset (p : PictureUnit) : p.reset.beam.AtTime 82180 := by
  refine ⟨⟨?_, ?_⟩, 0, rfl, ?_⟩
  · show (240 : UInt16) ≤ preRenderLine
    decide
  · show (340 : UInt16) ≤ lastDot
    decide
  · show dotsPerFrame * 0 + 341 * (240 : UInt16).toNat + (340 : UInt16).toNat = 82180
    decide

/-- From power-on to the beginning of the first whole frame, with nothing shown. -/
def firstFrame : List Event := dots emptyBoard 7162

theorem reset_not_mem_firstFrame : .reset ∉ firstFrame := reset_not_mem_dots emptyBoard 7162

/-- The first whole frame has number one. -/
theorem frame_firstFrame :
    (ShortFrames.afterAll .powerOn firstFrame).beam.AtTime dotsPerFrame ∧
      (ShortFrames.afterAll .powerOn firstFrame).beam.frame = 1 := by
  have hstart : PictureUnit.powerOn.beam.AtTime 82180 := atTime_reset _
  have hblank : PictureUnit.powerOn.rendering = false := rfl
  have htime : (ShortFrames.afterAll .powerOn firstFrame).beam.AtTime (82180 + 7162) :=
    (afterAll_dots hstart
      (fun hshown => absurd (hblank.symm.trans hshown) Bool.false_ne_true) emptyBoard).1
  exact ⟨htime, htime.frame_place.1⟩

/-- With the background shown, the first whole frame is short. -/
theorem skips_firstFrame :
    let p := ShortFrames.afterAll .powerOn (firstFrame ++ shown 89340)
    p.beam.line = preRenderLine ∧ p.beam.dot = 339 ∧ p.beam.frame = 1 ∧
      AtCorner (p.tick emptyBoard) := by
  have hlate := late_shown (n := 89340) frame_firstFrame.1 (by decide)
  rw [← afterAll_append] at hlate
  obtain ⟨hline, hdot, hrendering, hframe⟩ := hlate
  have hreset : .reset ∉ firstFrame ++ shown 89340 := by
    intro hmem
    rcases List.mem_append.1 hmem with hfirst | hsecond
    · exact reset_not_mem_firstFrame hfirst
    · exact reset_not_mem_shown 89340 hsecond
  obtain ⟨hcorner, -, -, hnone⟩ :=
    skips_iff_odd (firstFrame ++ shown 89340) emptyBoard hline hdot
  rw [hnone hreset, hframe] at hcorner
  exact ⟨hline, hdot, hframe, hcorner.2 ⟨hrendering, by decide⟩⟩

/-- A reset in a frame with an odd number: the next frame has number zero, which is even, and
is short. -/
theorem even_frame_skips :
    let p := ShortFrames.afterAll .powerOn (firstFrame ++ .reset :: shown 7160)
    p.beam.line = preRenderLine ∧ p.beam.dot = 339 ∧ p.rendering = true ∧ p.beam.frame = 0 ∧
      AtCorner (p.tick emptyBoard) := by
  -- the reset clears the count, but it does not turn the bit
  have hcounts := ((counts firstFrame).after .reset).afterAll (shown 7160)
  have hlate := late_shown (n := 7160)
    (atTime_reset (ShortFrames.afterAll .powerOn firstFrame)) (by decide)
  rw [forgotten_eq_zero _ reset_not_mem_firstFrame, forgotten_eq_zero _ (reset_not_mem_shown 7160),
    Event.forgets_reset, frame_firstFrame.2, ← afterAll_cons, ← afterAll_append] at hcounts
  rw [← Event.after_reset, ← afterAll_cons, ← afterAll_append] at hlate
  obtain ⟨hline, hdot, hrendering, hframe⟩ := hlate
  have hodd := hcounts.2 (by rw [hframe]; decide)
  exact ⟨hline, hdot, hrendering, hframe, (tick_late hline hdot emptyBoard).1.2 ⟨hrendering, hodd⟩⟩

end ShortFrames

end Famicom.Video
