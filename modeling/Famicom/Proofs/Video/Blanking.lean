import Famicom.Proofs.Video.Clock
import Famicom.Proofs.Video.Compositing

/-!
# Accesses in blanking

The processor fills nametables, palette, patterns and sprites through a few
registers, byte by byte, while the beam goes on. This file proves that the dots in
between do not matter, as long as they fall into blanking:

* **accesses** — what an access does depends on what the unit holds, and not on the
  moment (`held_access`);
* **quiet dots** — a dot with nothing shown, or on one of the lines 240 to 260,
  changes nothing that the unit holds (`Quiet.holdings_tick`);
* **any dot** — a dot of the picture moves the address `v`, and changes nothing else
  that the unit holds (`holdings_tick`).
-/

namespace Famicom.Video

open Cartridge

/-- What a picture unit holds for the processor: the memories, the address and scroll
registers, the byte in the buffer, and the bytes in the registers that are written. -/
structure Holdings where
  nametables : Memory UInt8 0x1000
  palette : Memory UInt8 32
  sprites : SpriteMemory
  scroll : Scroll
  readBuffer : UInt8
  control : UInt8
  mask : UInt8
  spriteAddress : UInt8
  lastWrite : UInt8

/-- The same holdings with another address. -/
def Holdings.withAddress (v : UInt16) (h : Holdings) : Holdings :=
  { h with scroll := { h.scroll with v } }

namespace PictureUnit

/-- Everything but the beam, the screen, the flags and what is fetched for the
picture. -/
def holdings (p : PictureUnit) : Holdings :=
  { nametables := p.nametables, palette := p.palette, sprites := p.sprites, scroll := p.scroll
    readBuffer := p.readBuffer, control := p.control, mask := p.mask
    spriteAddress := p.spriteAddress, lastWrite := p.lastWrite }

variable {p q : PictureUnit}

/-- Two units that hold the same differ in what belongs to the picture. -/
theorem shape_of_holdings (h : q.holdings = p.holdings) :
    ∃ hit overflow beam tile selection nmi screen,
      q = { p with spriteZeroHit := hit, spriteOverflow := overflow, beam := beam, tile := tile
                   selection := selection, nmi := nmi, screen := screen } := by
  rcases p with ⟨⟨⟩⟩
  rcases q with ⟨⟨⟩⟩
  simp only [holdings, Holdings.mk.injEq] at h
  obtain ⟨rfl, rfl, rfl, rfl, rfl, rfl, rfl, rfl, rfl⟩ := h
  exact ⟨_, _, _, _, _, _, _, rfl⟩

/-! ## Accesses -/

section Accesses

variable (b : Board)

/-- A register is read to the same effect. -/
theorem holdings_readRegister (h : q.holdings = p.holdings) (register : UInt16) :
    (q.readRegister b register).2.holdings = (p.readRegister b register).2.holdings := by
  obtain ⟨hit, overflow, beam, tile, selection, nmi, screen, rfl⟩ := shape_of_holdings h
  unfold readRegister
  split
  · rfl
  · rfl
  · -- the byte behind the address is the same, in front of the palette and in it
    unfold readData
    simp only []
    split <;> rfl
  · rfl

theorem holdings_store (h : q.holdings = p.holdings) (address : UInt16) (value : UInt8) :
    (q.store b address value).1.holdings = (p.store b address value).1.holdings ∧
      (q.store b address value).2 = (p.store b address value).2 := by
  obtain ⟨hit, overflow, beam, tile, selection, nmi, screen, rfl⟩ := shape_of_holdings h
  unfold store
  simp only []
  split
  · exact ⟨rfl, rfl⟩
  split
  · exact ⟨rfl, rfl⟩
  · exact ⟨rfl, rfl⟩

theorem holdings_skip (h : q.holdings = p.holdings) : q.skip.holdings = p.skip.holdings := by
  obtain ⟨hit, overflow, beam, tile, selection, nmi, screen, rfl⟩ := shape_of_holdings h
  rfl

/-- A register is written to the same effect, on the board too. -/
theorem holdings_writeRegister (h : q.holdings = p.holdings) (register : UInt16) (value : UInt8) :
    (q.writeRegister b register value).1.holdings = (p.writeRegister b register value).1.holdings ∧
      (q.writeRegister b register value).2 = (p.writeRegister b register value).2 := by
  have hlast : { q with lastWrite := value }.holdings = { p with lastWrite := value }.holdings :=
    congrArg (fun held : Holdings => { held with lastWrite := value }) h
  obtain ⟨hstored, hboard⟩ := holdings_store b hlast p.scroll.v value
  obtain ⟨hit, overflow, beam, tile, selection, nmi, screen, rfl⟩ := shape_of_holdings h
  unfold writeRegister
  simp only []
  split
  case h_7 => exact ⟨holdings_skip hstored, hboard⟩
  all_goals exact ⟨rfl, rfl⟩

theorem holdings_writeSprite (h : q.holdings = p.holdings) (address value : UInt8) :
    (q.writeSprite address value).holdings = (p.writeSprite address value).holdings := by
  obtain ⟨hit, overflow, beam, tile, selection, nmi, screen, rfl⟩ := shape_of_holdings h
  rfl

end Accesses

/-! ## Dots -/

section Dots

variable (p : PictureUnit) (b : Board)

theorem holdings_advance : p.advance.holdings = p.holdings :=
  rfl

theorem holdings_updateSelection : (p.updateSelection b).holdings = p.holdings := by
  unfold updateSelection
  split
  · split <;> rfl
  · rfl

theorem holdings_updateFlags : p.updateFlags.holdings = p.holdings := by
  unfold updateFlags
  split
  · split
    · rfl
    split <;> rfl
  · rfl

theorem holdings_drawBackdrop : p.drawBackdrop.holdings = p.holdings := by
  unfold drawBackdrop
  split <;> rfl

theorem holdings_render : ∃ v, (p.render b).holdings = p.holdings.withAddress v := by
  obtain ⟨screen, hit, hdraw⟩ := p.drawStep_shape
  obtain ⟨v, tile, hfetch⟩ := Still.fetchStep_shape p.drawStep b
  obtain ⟨v', hmove⟩ := Still.moveScroll_shape (p.drawStep.fetchStep b)
  unfold render
  split
  · refine ⟨v', ?_⟩
    show ((p.drawStep.fetchStep b).moveScroll.updateSelection b).holdings = _
    rw [holdings_updateSelection, hmove, hfetch, hdraw]
    rfl
  · exact ⟨p.scroll.v, holdings_updateSelection p b⟩

/-- Whatever a dot does, of all that the unit holds it changes the address at most. -/
theorem holdings_tick : ∃ v, (p.tick b).holdings = p.holdings.withAddress v := by
  unfold tick
  simp only [holdings_updateFlags]
  split
  · exact holdings_render p.advance b
  · exact ⟨p.scroll.v, holdings_drawBackdrop p.advance⟩

/-- The next dot is quiet: nothing is shown, or the beam comes to one of the lines
between the picture and the line that prepares the next one. -/
def Quiet (p : PictureUnit) (b : Board) : Prop :=
  p.rendering = false ∨ 240 ≤ (p.tick b).beam.line ∧ (p.tick b).beam.line ≤ 260

instance : Decidable (p.Quiet b) :=
  inferInstanceAs (Decidable (_ ∨ _ ∧ _))

variable {p b}

/-- Between the picture and the line that prepares the next one a dot neither draws
nor fetches, even while something is shown. -/
theorem render_between (hlow : 240 ≤ p.beam.line) (hhigh : p.beam.line ≤ 260) :
    p.render b = p.updateSelection b := by
  have hline : ¬ (p.beam.onVisibleLine || p.beam.line == preRenderLine) = true := by
    simp only [Beam.onVisibleLine, preRenderLine, Bool.or_eq_true, decide_eq_true_eq, beq_iff_eq,
      UInt16.lt_iff_toNat_lt, UInt16.le_iff_toNat_le, ← UInt16.toNat_inj,
      UInt16.reduceToNat] at hlow hhigh ⊢
    omega
  rw [render, if_neg hline]

/-- A quiet dot leaves the address alone too. -/
theorem Quiet.holdings_tick (h : p.Quiet b) : (p.tick b).holdings = p.holdings := by
  unfold tick
  simp only [holdings_updateFlags]
  rcases h with hidle | ⟨hlow, hhigh⟩
  · have hidle : ¬ p.advance.rendering = true := Bool.eq_false_iff.1 hidle
    rw [if_neg hidle, holdings_drawBackdrop, holdings_advance]
  · rw [beam_tick] at hlow hhigh
    rw [render_between hlow hhigh]
    split
    · exact holdings_updateSelection p.advance b
    · exact holdings_drawBackdrop p.advance

end Dots

end PictureUnit

/-! ## Runs -/

namespace Blanking

/-- What the processor does with a picture unit and with the board behind it. -/
inductive Access where
  | read (register : UInt16)
  | write (register : UInt16) (value : UInt8)
  | writeSprite (address value : UInt8)
  | writeBoard (address : UInt16) (value : UInt8)

/-- A dot, or an access between two dots. -/
inductive Event where
  | dot
  | access (a : Access)

/-- The unit and the board behind an access. -/
def access : Access → PictureUnit × Board → PictureUnit × Board
  | .read register, (p, b) => ((p.readRegister b register).2, b)
  | .write register value, (p, b) => p.writeRegister b register value
  | .writeSprite address value, (p, b) => (p.writeSprite address value, b)
  | .writeBoard address value, (p, b) => (p, b.write address value)

/-- The unit and the board behind several accesses, with no dot between them. -/
def accessAll : List Access → PictureUnit × Board → PictureUnit × Board
  | [], s => s
  | a :: rest, s => accessAll rest (access a s)

/-- The unit and the board behind an event. A dot looks at the board only. -/
def after : Event → PictureUnit × Board → PictureUnit × Board
  | .dot, (p, b) => (p.tick b, b)
  | .access a, s => access a s

/-- The unit and the board behind all events. -/
def afterAll : List Event → PictureUnit × Board → PictureUnit × Board
  | [], s => s
  | e :: rest, s => afterAll rest (after e s)

/-- What is left of the events without the dots. -/
def accesses : List Event → List Access
  | [] => []
  | .dot :: rest => accesses rest
  | .access a :: rest => a :: accesses rest

/-- All dots among the events are quiet when they come. -/
def Blanked : List Event → PictureUnit × Board → Prop
  | [], _ => True
  | .dot :: rest, s => s.1.Quiet s.2 ∧ Blanked rest (after .dot s)
  | .access a :: rest, s => Blanked rest (access a s)

/-- What is held behind some events: by the unit, and by the board with its patterns. -/
def held (s : PictureUnit × Board) : Holdings × Board := (s.1.holdings, s.2)

variable {s s' : PictureUnit × Board}

/-- An access does the same to what is held, at whatever moment it comes. -/
theorem held_access (h : held s' = held s) (a : Access) :
    held (access a s') = held (access a s) := by
  obtain ⟨p, b⟩ := s
  obtain ⟨q, b'⟩ := s'
  obtain ⟨hunit, hboard⟩ : q.holdings = p.holdings ∧ b' = b := Prod.mk.inj h
  subst hboard
  cases a with
  | read register => exact congrArg (·, b') (PictureUnit.holdings_readRegister b' hunit register)
  | write register value =>
      obtain ⟨hwritten, hboard⟩ := PictureUnit.holdings_writeRegister b' hunit register value
      exact congrArg₂ Prod.mk hwritten hboard
  | writeSprite address value =>
      exact congrArg (·, b') (PictureUnit.holdings_writeSprite hunit address value)
  | writeBoard address value => exact congrArg (·, b'.write address value) hunit

/-- Quiet dots can be left out of a run. -/
theorem held_afterAll (events : List Event) (h : held s' = held s) (hblanked : Blanked events s') :
    held (afterAll events s') = held (accessAll (accesses events) s) := by
  -- the run without dots stands still while the other one goes through a dot
  induction events generalizing s s' with
  | nil => exact h
  | cons event rest ih =>
      cases event with
      | dot =>
          obtain ⟨hquiet, hrest⟩ := hblanked
          have hdot : held (after .dot s') = held s' :=
            congrArg (·, s'.2) (PictureUnit.Quiet.holdings_tick hquiet)
          exact ih (hdot.trans h) hrest
      | access a => exact ih (held_access h a) hblanked

/-- **Accesses in blanking know no time.** Take a picture unit and a board in any
state, and a sequence of accesses with dots between them. If at every dot nothing is
shown, or the beam comes to one of the lines 240 to 260, then in the end the unit and
the board hold what they hold after the same accesses without any dots: nametables,
palette, sprites, patterns, the address and scroll registers, the buffer of the data
register and the registers that are written. And a dot at any moment changes none of
this but the address `v`. -/
theorem access_untimed (p : PictureUnit) (b : Board) :
    (∀ events, Blanked events (p, b) →
      held (afterAll events (p, b)) = held (accessAll (accesses events) (p, b))) ∧
    ∃ v, held (after .dot (p, b)) = (p.holdings.withAddress v, b) := by
  refine ⟨?_, ?_⟩
  · intro events hblanked
    exact held_afterAll events rfl hblanked
  · obtain ⟨v, hdot⟩ := p.holdings_tick b
    exact ⟨v, congrArg (·, b) hdot⟩

/-- A byte for a nametable is written around the start of vertical blanking, with the
background switched on and a dot behind every access. -/
theorem access_untimed_upload :
    let events : List Event :=
      [.access (.write 1 0x08), .dot, .access (.write 6 0x20), .dot, .access (.write 6 0x41), .dot,
       .access (.write 7 0x55), .dot, .access (.read 7), .dot]
    let s : PictureUnit × Board := (.powerOn, .ofCartridge (.minimal .linear))
    Blanked events s ∧ held (afterAll events s) = held (accessAll (accesses events) s) := by
  intro events s
  have hblanked : Blanked events s := by
    refine ⟨?_, ?_, ?_, ?_, ?_, trivial⟩ <;> decide
  exact ⟨hblanked, (access_untimed s.1 s.2).1 events hblanked⟩

end Blanking

end Famicom.Video
