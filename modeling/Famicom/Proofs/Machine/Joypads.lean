import Famicom.Proofs.Machine.Isolation

/-!
# What the joypads tell

A joypad counts the bits that have been read since its strobe was high, and a read looks
at the buttons at that moment: no mask is kept from the time when the strobe fell. So what
a read gives follows from three things in the history of the port.

* **buttons** — the mask that was held last (`Joypad.heldBehind`);
* **strobe** — the last write to it (`Joypad.strobeBehind`); while it is high every read
  gives the first button;
* **reads** — the number of reads since it fell (`Joypad.reads`), which says what button
  comes next (`Joypad.index_actAll`).

On a bus with two joypads a port sees the writes to the strobe and its own reads and
buttons, and nothing else (`Bus.joypad_receive`). `reads_follow_buttons` puts this
together; if buttons change while they are read, the bits belong to different masks
(`read_torn`).
-/

namespace Famicom

namespace Joypad

/-! ## A joypad -/

/-- What happens to a joypad. -/
inductive Action where
  | read
  | write (value : UInt8)
  | hold (buttons : UInt8)

/-- The level of the strobe that a write sets. -/
def Action.strobe? : Action → Option Bool
  | .write value => some (hasBits value 0x01)
  | _ => none

/-- The mask that is held from an action on. -/
def Action.mask? : Action → Option UInt8
  | .hold buttons => some buttons
  | _ => none

/-- Whether an action reads a bit. -/
def Action.reads : Action → Bool
  | .read => true
  | _ => false

/-- The joypad behind an action. -/
def act (j : Joypad) : Action → Joypad
  | .read => j.read.2
  | .write value => j.write value
  | .hold buttons => j.hold buttons

/-- The joypad behind several actions. -/
def actAll (j : Joypad) (actions : List Action) : Joypad := actions.foldl act j

/-- The mask that is held behind some actions. -/
def heldBehind (actions : List Action) : UInt8 :=
  (actions.filterMap Action.mask?).getLast?.getD 0

/-- The strobe behind some actions. -/
def strobeBehind (actions : List Action) : Bool :=
  (actions.filterMap Action.strobe?).getLast?.getD false

/-- The number of reads among some actions. -/
def reads (actions : List Action) : Nat := actions.countP Action.reads

/-- A bit of a mask, as it is read. -/
def bit (mask : UInt8) (k : Nat) : UInt8 := if mask.toNat.testBit k then 1 else 0

theorem actAll_append (j : Joypad) (actions more : List Action) :
    j.actAll (actions ++ more) = (j.actAll actions).actAll more :=
  List.foldl_append

theorem heldBehind_append (actions : List Action) (a : Action) :
    heldBehind (actions ++ [a]) = a.mask?.getD (heldBehind actions) := by
  simp only [heldBehind, List.filterMap_append, List.filterMap_cons, List.filterMap_nil]
  cases a.mask? with
  | none => simp
  | some mask => simp

theorem strobeBehind_append (actions : List Action) (a : Action) :
    strobeBehind (actions ++ [a]) = a.strobe?.getD (strobeBehind actions) := by
  simp only [strobeBehind, List.filterMap_append, List.filterMap_cons, List.filterMap_nil]
  cases a.strobe? with
  | none => simp
  | some level => simp

theorem bit_eq (mask : UInt8) {index : UInt8} (h : index.toNat < 8) :
    (mask >>> index) &&& 1 = bit mask index.toNat := by
  rw [bit, ← UInt8.toNat_inj, Byte.toNat_and_low _ 1 rfl, UInt8.toNat_shiftRight,
    Nat.mod_eq_of_lt h, Nat.shiftRight_eq_div_pow, Nat.testBit_eq_decide_div_mod_eq]
  cases Nat.mod_two_eq_zero_or_one (mask.toNat / 2 ^ index.toNat) with
  | inl hzero => simp [hzero]
  | inr hone => simp [hone]

/-- A read changes the count at most. -/
theorem read_frame (j : Joypad) : j.read.2.held = j.held ∧ j.read.2.strobe = j.strobe := by
  unfold read
  split
  · exact ⟨rfl, rfl⟩
  · split <;> exact ⟨rfl, rfl⟩

/-- While the strobe is high a read gives the first button and counts nothing. -/
theorem read_high {j : Joypad} (h : j.strobe = true) : j.read = (bit j.held 0, j) :=
  (if_pos h).trans (congrArg (·, j) (bit_eq j.held (by decide : (0 : UInt8).toNat < 8)))

/-- While the strobe is low a read gives the next button, or a one. -/
theorem read_low {j : Joypad} {n : Nat} (hstrobe : j.strobe = false)
    (hindex : j.index.toNat = min 8 n) :
    j.read.1 = (if n < 8 then bit j.held n else 1) ∧ j.read.2.index.toNat = min 8 (n + 1) := by
  rw [read, if_neg (ne_true_of_eq_false hstrobe)]
  by_cases hn : n < 8
  · have hlt : j.index < 8 := UInt8.lt_iff_toNat_lt.2 (by simp only [UInt8.reduceToNat]; omega)
    rw [if_pos hlt, if_pos hn]
    refine ⟨?_, ?_⟩
    · rw [bit_eq _ (by omega), hindex, Nat.min_eq_right (by omega)]
    · show (j.index + 1).toNat = _
      rw [UInt8.toNat_add, hindex]
      simp only [UInt8.reduceToNat]
      omega
  · have hge : ¬ j.index < 8 := fun hlt => by
      have hless := UInt8.lt_iff_toNat_lt.1 hlt
      simp only [UInt8.reduceToNat] at hless
      omega
    rw [if_neg hge, if_neg hn]
    refine ⟨rfl, ?_⟩
    show 8 = min 8 (n + 1)
    omega

/-- A joypad is in the state that its history says. -/
structure Tells (actions : List Action) (j : Joypad) : Prop where
  held : j.held = heldBehind actions
  strobe : j.strobe = strobeBehind actions
  /-- While the strobe is high the reads start over. -/
  start : j.strobe = true → j.index = 0

theorem Tells.act {actions : List Action} {j : Joypad} (h : Tells actions j) (a : Action) :
    Tells (actions ++ [a]) (j.act a) := by
  have hheld := heldBehind_append actions a
  have hstrobe := strobeBehind_append actions a
  cases a with
  | read =>
      obtain ⟨hsame, hlevel⟩ := j.read_frame
      refine ⟨hsame.trans (h.held.trans hheld.symm), hlevel.trans (h.strobe.trans hstrobe.symm),
        fun hhigh => ?_⟩
      have hhigh : j.strobe = true := hlevel.symm.trans hhigh
      rw [Joypad.act, read_high hhigh]
      exact h.start hhigh
  | write value => exact ⟨h.held.trans hheld.symm, hstrobe.symm, fun hhigh => if_pos hhigh⟩
  | hold buttons => exact ⟨hheld.symm, h.strobe.trans hstrobe.symm, h.start⟩

theorem tells_actAll (actions : List Action) : Tells actions (idle.actAll actions) := by
  induction actions using List.reverseRecOn with
  | nil => exact ⟨rfl, rfl, fun _ => rfl⟩
  | append_singleton actions a ih =>
      rw [actAll_append]
      exact ih.act a

/-- As long as the strobe stays low the reads are counted, up to eight. -/
theorem index_actAll {j : Joypad} {actions : List Action} {n : Nat} (hstrobe : j.strobe = false)
    (hindex : j.index.toNat = min 8 n) (hlow : ∀ a ∈ actions, a.strobe? ≠ some true) :
    (j.actAll actions).strobe = false ∧
      (j.actAll actions).index.toNat = min 8 (n + reads actions) := by
  induction actions generalizing j n with
  | nil => exact ⟨hstrobe, hindex⟩
  | cons a rest ih =>
      have hrest (b) (hb : b ∈ rest) := hlow b (List.mem_cons_of_mem a hb)
      have ha := hlow a List.mem_cons_self
      cases a with
      | read =>
          have hnext := ih (j := j.read.2) (n := n + 1) (j.read_frame.2.trans hstrobe)
            (read_low hstrobe hindex).2 hrest
          have hcount : reads (.read :: rest) = reads rest + 1 := List.countP_cons_of_pos rfl
          rw [hcount, ← Nat.add_assoc, Nat.add_right_comm]
          exact hnext
      | write value =>
          have hvalue : hasBits value 0x01 = false := by simpa [Action.strobe?] using ha
          refine ih (j := j.write value) hvalue ?_ hrest
          rw [write, hvalue]
          exact hindex
      | hold buttons => exact ih (j := j.hold buttons) hstrobe hindex hrest

end Joypad

namespace Machine.Bus

open Audio Cartridge Cpu Video

/-! ## The ports -/

/-- The two ports for joypads. -/
inductive Port where
  | first
  | second
deriving DecidableEq, Repr

namespace Port

def address : Port → UInt16
  | first => 0x4016
  | second => 0x4017

def other : Port → Port
  | first => second
  | second => first

end Port

/-- The joypad of a port. -/
def joypad (b : Bus) : Port → Joypad
  | .first => b.joypad1
  | .second => b.joypad2

/-- What happens to a bus with players. -/
inductive Input where
  | event (e : Event)
  | hold (port : Port) (buttons : UInt8)

/-- The bus behind an event or a change of the buttons. -/
def receive (b : Bus) : Input → Bus
  | .event e => b.after e
  | .hold .first buttons => { b with joypad1 := b.joypad1.hold buttons }
  | .hold .second buttons => { b with joypad2 := b.joypad2.hold buttons }

/-- The bus behind a history with players. -/
def receiveAll (b : Bus) (history : List Input) : Bus := history.foldl receive b

/-- What the joypad of a port sees: the writes to the strobe, its own reads and its own
buttons. -/
def Input.seen? (port : Port) : Input → Option Joypad.Action
  | .event (.read address) => if address = port.address then some .read else none
  | .event (.write address value) => if address = 0x4016 then some (.write value) else none
  | .event _ => none
  | .hold player buttons => if player = port then some (.hold buttons) else none

/-- What the joypad of a port sees of a history. -/
def seen (port : Port) (history : List Input) : List Joypad.Action :=
  history.filterMap (Input.seen? port)

/-- A port is read, and the other one stays as it is. -/
theorem joypad_read (b : Bus) (address : UInt16) (port : Port) :
    (b.read address).2.joypad port =
      if address = port.address then (b.joypad port).read.2 else b.joypad port := by
  by_cases hfirst : address = 0x4016
  · subst hfirst
    cases port <;> rfl
  by_cases hsecond : address = 0x4017
  · subst hsecond
    cases port <;> rfl
  have hneither : address ≠ port.address := by
    cases port with
    | first => exact hfirst
    | second => exact hsecond
  rw [if_neg hneither]
  unfold Bus.read
  split
  · rfl
  split
  · rfl
  split
  · unfold readDevice
    split
    · rfl
    · exact absurd rfl hfirst
    · exact absurd rfl hsecond
    · rfl
  · rfl

/-- One address is wired to the strobe of both joypads. -/
theorem joypad_write (b : Bus) (address : UInt16) (value : UInt8) (port : Port) :
    (b.write address value).joypad port =
      if address = 0x4016 then (b.joypad port).write value else b.joypad port := by
  by_cases hstrobe : address = 0x4016
  · subst hstrobe
    cases port <;> rfl
  rw [if_neg hstrobe]
  unfold Bus.write
  split
  · rfl
  split
  · rfl
  split
  · unfold writeDevice
    split
    · rfl
    · exact absurd rfl hstrobe
    · split <;> rfl
  · rfl

theorem joypad_receive (b : Bus) (i : Input) (port : Port) :
    (b.receive i).joypad port =
      (i.seen? port).elim (b.joypad port) (b.joypad port).act := by
  cases i with
  | event e =>
      cases e with
      | read address =>
          refine (b.joypad_read address port).trans ?_
          rw [Input.seen?]
          split <;> rfl
      | write address value =>
          refine (b.joypad_write address value port).trans ?_
          rw [Input.seen?]
          split <;> rfl
      | _ => rfl
  | hold player buttons => cases player <;> cases port <;> rfl

/-- A joypad is what its port has seen. -/
theorem joypad_receiveAll (b : Bus) (history : List Input) (port : Port) :
    (b.receiveAll history).joypad port = (b.joypad port).actAll (seen port history) := by
  induction history generalizing b with
  | nil => rfl
  | cons i rest ih =>
      show ((b.receive i).receiveAll rest).joypad port = _
      rw [ih, joypad_receive, seen, seen, List.filterMap_cons]
      cases i.seen? port with
      | none => rfl
      | some a => rfl

theorem read_port (b : Bus) (port : Port) :
    (b.read port.address).1 = (b.joypad port).read.1 := by
  cases port <;> rfl

/-- **What a joypad tells.** Take a bus with any cartridge and any history of it: reads and
writes at any addresses, dots of the picture, cycles of sound, and buttons of two players
that change at any time.

* While the strobe is high every read of a port gives the first button of its player.
* After a write that lowers the strobe, and until the strobe is high again, the read that
  comes behind `k` others of the port gives bit `k` of the mask that is held at this read,
  and a one if `k` is eight or more.
* The other port is left alone. -/
theorem reads_follow_buttons (c : Cartridge) (rate : UInt32) (port : Port) :
    let start := powerOn (.ofCartridge c) rate
    (∀ history, Joypad.strobeBehind (seen port history) = true →
      ((start.receiveAll history).read port.address).1 =
        Joypad.bit (Joypad.heldBehind (seen port history)) 0) ∧
    (∀ before low after, Joypad.strobeBehind (seen port before) = true →
      hasBits low 0x01 = false → (∀ a ∈ seen port after, a.strobe? ≠ some true) →
      let history := before ++ .event (.write 0x4016 low) :: after
      let k := Joypad.reads (seen port after)
      ((start.receiveAll history).read port.address).1 =
        if k < 8 then Joypad.bit (Joypad.heldBehind (seen port history)) k else 1) ∧
    ∀ b : Bus, (b.read port.address).2.joypad port.other = b.joypad port.other := by
  intro start
  have htells (history) :
      Joypad.Tells (seen port history) ((start.receiveAll history).joypad port) := by
    rw [joypad_receiveAll]
    cases port <;> exact Joypad.tells_actAll _
  refine ⟨fun history hhigh => ?_, fun before low after hhigh hlow hquiet => ?_, fun b => ?_⟩
  · have h := htells history
    rw [read_port, Joypad.read_high (h.strobe.trans hhigh), h.held]
  · intro history k
    have h := htells before
    -- the write leaves the count at zero, where the high strobe has put it
    have hfallen : (((start.receiveAll before).write 0x4016 low).joypad port).strobe = false ∧
        (((start.receiveAll before).write 0x4016 low).joypad port).index = 0 := by
      rw [joypad_write, if_pos rfl, Joypad.write, hlow]
      exact ⟨rfl, h.start (h.strobe.trans hhigh)⟩
    have hcount := Joypad.index_actAll (n := 0) hfallen.1 (congrArg UInt8.toNat hfallen.2) hquiet
    rw [← joypad_receiveAll, Nat.zero_add] at hcount
    have hhistory : start.receiveAll history =
        ((start.receiveAll before).write 0x4016 low).receiveAll after := List.foldl_append
    rw [read_port, ← (htells history).held, hhistory]
    exact (Joypad.read_low hcount.1 hcount.2).1
  · rw [joypad_read, if_neg]
    cases port <;> decide

/-- Start is pressed while the strobe is high, and the first player changes to Select between
the third read and the fourth one. -/
theorem reads_follow_buttons_changed :
    let start := powerOn (.ofCartridge (.minimal .linear)) defaultRate
    let before : List Input := [.hold .first 0x08, .event (.write 0x4016 1)]
    let after : List Input :=
      [.event (.read 0x4016), .event (.read 0x4016), .event (.read 0x4017), .event (.read 0x4016),
        .hold .first 0x04]
    let history := before ++ .event (.write 0x4016 0) :: after
    Joypad.strobeBehind (seen .first before) = true ∧ hasBits 0x00 0x01 = false ∧
      (∀ a ∈ seen .first after, a.strobe? ≠ some true) ∧
      ((start.receiveAll history).read 0x4016).1 = 0 := by
  intro start before after history
  have hhigh : Joypad.strobeBehind (seen .first before) = true := by decide
  have hquiet : ∀ a ∈ seen .first after, a.strobe? ≠ some true := by decide
  have hread : ((start.receiveAll history).read 0x4016).1 = _ :=
    (reads_follow_buttons (.minimal .linear) defaultRate .first).2.1 before 0 after hhigh
      (by decide) hquiet
  exact ⟨hhigh, by decide, hquiet, hread.trans (by decide)⟩

/-- **Bits of two masks.** The first player holds A alone when the strobe falls, and B alone
from the first read on. The second read gives a one, so that the bits are those of a mask
that was never held, and not those of the mask that was held when the strobe fell. -/
theorem read_torn :
    let start := powerOn (.ofCartridge (.minimal .linear)) defaultRate
    let before : List Input := [.hold .first 0x01, .event (.write 0x4016 1)]
    let after : List Input := [.event (.read 0x4016), .hold .first 0x02]
    let history := before ++ .event (.write 0x4016 0) :: after
    Joypad.strobeBehind (seen .first before) = true ∧
      Joypad.heldBehind (seen .first before) = 0x01 ∧ Joypad.reads (seen .first after) = 1 ∧
      ((start.receiveAll history).read 0x4016).1 = 1 ∧ Joypad.bit 0x01 1 = 0 := by
  intro start before after history
  have hread : ((start.receiveAll history).read 0x4016).1 =
      (Joypad.idle.actAll (seen .first history)).read.1 :=
    (read_port _ .first).trans (congrArg (·.read.1) (start.joypad_receiveAll history .first))
  exact ⟨by decide, by decide, by decide, hread.trans (by decide), by decide⟩

end Machine.Bus

end Famicom
