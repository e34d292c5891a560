import Famicom.Proofs.Cpu.Return
import Famicom.Proofs.Machine.Fetch
import Famicom.Proofs.Machine.Requests
import Famicom.Proofs.Machine.Reset
import Famicom.Proofs.Machine.Time
import Famicom.Proofs.Video.Blanking

/-!
# A page for the sprites

A write to $4014 latches a page, and what comes right after the instruction copies it to
sprite memory, a byte at a time over the bus.

* **asking** — a step writes to $4014 once at most, so nothing that is latched is replaced
  (`length_pagesAsked`, `pagesAsked_accesses`);
* **copying** — both ends wrap on their own, and outside the pages of the registers nothing
  but sprite memory is changed (`copySprites_eq`);
* **waiting** — the processor waits for the copy, and for each sample that is fetched before
  its next step (`stall_catchUpSound`).

`transfer_once` says all of it about a step of a machine.
-/

namespace Famicom.Cpu

/-! ## Asking for a page -/

/-- The page that an access asks for, if it does. -/
def Access.page? : Access → Option UInt8
  | .read _ _ => none
  | .write address value => if address = 0x4014 then some value else none

/-- The pages that are asked for, one after the other. -/
def pagesAsked (accesses : List Access) : List UInt8 := accesses.filterMap Access.page?

theorem mem_pagesAsked {accesses : List Access} {page : UInt8} :
    page ∈ pagesAsked accesses ↔ Access.write 0x4014 page ∈ accesses := by
  rw [pagesAsked, List.mem_filterMap]
  constructor
  · rintro ⟨access, hmem, hpage⟩
    cases access with
    | read address value => cases hpage
    | write address value =>
        simp only [Access.page?, Option.ite_none_right_eq_some, Option.some.injEq] at hpage
        obtain ⟨rfl, rfl⟩ := hpage
        exact hmem
  · exact fun hmem => ⟨_, hmem, rfl⟩

/-- The stack is somewhere else. -/
theorem page?_push (s v : UInt8) : (Access.write (stackCell s) v).page? = none := by
  refine if_neg fun heq => ?_
  have hplace := toNat_stackCell s
  have hlt := s.toNat_lt
  rw [heq] at hplace
  simp only [UInt16.reduceToNat] at hplace
  omega

section

variable {r r' : Registers} {accesses : List Access}

theorem Takes.pagesAsked {pending : Option Interrupt} (h : Takes r pending accesses r') :
    pagesAsked accesses = [] := by
  cases h with
  | nothing | disabled | reset => rfl
  | irq low high | nmi low high =>
      simp only [Cpu.pagesAsked, entryAccesses, List.filterMap_cons, page?_push]
      rfl

theorem Locates.pagesAsked {mode : Mode} {address : UInt16} (h : Locates r mode accesses address) :
    pagesAsked accesses = [] := by
  cases h <;> rfl

/-- No instruction writes to its operand twice. -/
theorem Acts.length_pagesAsked {i : Instruction} {address : UInt16}
    (h : Acts i address r accesses) :
    (pagesAsked accesses).length ≤ 1 := by
  cases h with
  | stores v _ => exact List.length_filterMap_le _ [Access.write address v]
  | modifies v w _ _ => exact List.length_filterMap_le _ [Access.write address w]
  | pushes v _ => exact List.length_filterMap_le _ [Access.write (stackCell r.s) v]
  | calls _ =>
      simp only [Cpu.pagesAsked, List.filterMap_cons, page?_push]
      exact Nat.zero_le 1
  | breaks low high _ =>
      simp only [Cpu.pagesAsked, entryAccesses, List.filterMap_cons, page?_push]
      exact Nat.zero_le 1
  | reads | accumulates | pulls | returns | resumes | quiet => exact Nat.zero_le 1

end

/-- Only the instruction itself can ask for a page, and only for one. -/
theorem StepTrace.Follows.length_pagesAsked {t : StepTrace} {c : Processor} (h : t.Follows c) :
    (pagesAsked t.accesses).length ≤ 1 := by
  have haction : pagesAsked t.accesses = pagesAsked t.action := by
    have hentry : t.entry.filterMap Access.page? = [] := h.entry.pagesAsked
    have hoperand : t.operand.filterMap Access.page? = [] := h.operand.pagesAsked
    simp only [pagesAsked, StepTrace.accesses, List.filterMap_append, List.filterMap_cons,
      Access.page?, hentry, hoperand, List.nil_append]
  rw [haction]
  exact h.action.length_pagesAsked

namespace Processor

theorem stall_request (c : Processor) (i : Interrupt) : (c.request i).stall = c.stall := by
  cases i with
  | reset => rfl
  | nmi =>
      simp only [request]
      split <;> rfl
  | irq =>
      simp only [request]
      split <;> rfl

/-- Waiting adds up as long as the count does not reach its greatest value. -/
theorem toNat_stall_addStall {c : Processor} {n : UInt32}
    (h : c.stall.toNat + n.toNat < 2 ^ 32) :
    (c.addStall n).stall.toNat = c.stall.toNat + n.toNat := by
  have hsum : (c.stall + n).toNat = c.stall.toNat + n.toNat := by
    rw [UInt32.toNat_add, Nat.mod_eq_of_lt h]
  have hnot : ¬ c.stall + n < c.stall := by
    rw [UInt32.lt_iff_toNat_lt, hsum]
    omega
  simp only [addStall, if_neg hnot, hsum]

end Processor

end Famicom.Cpu

namespace Famicom.Machine

open Audio Cartridge Cpu Video

namespace Bus

theorem transferPage_write (b : Bus) (address : UInt16) (value : UInt8) :
    (b.write address value).transferPage =
      ((Access.write address value).page?).or b.transferPage := by
  by_cases haddress : address = 0x4014
  · subst haddress
    rfl
  have hpage : (Access.write address value).page? = none := if_neg haddress
  rw [hpage]
  unfold Bus.write
  split
  · rfl
  split
  · rfl
  split
  · unfold writeDevice
    split
    · exact absurd rfl haddress
    · rfl
    split <;> rfl
  · rfl

/-- The page that was asked for last is latched. -/
theorem transferPage_invariant :
    Invariant fun t : Traced Bus => t.space.transferPage = (pagesAsked t.history).head? where
  read address t h := (t.space.transferPage_read address).trans h
  write address value t h := by
    show (t.space.write address value).transferPage =
      (List.filterMap Access.page? (Access.write address value :: t.history)).head?
    rw [transferPage_write, h, List.filterMap_cons]
    cases (Access.write address value).page? <;> rfl

end Bus

variable {c : Cartridge} {rate : UInt32} {m : Machine}

/-- The accesses that the processor makes in a step, in order. -/
def accesses (m : Machine) : List Access :=
  (m.cpu.step (⟨m.bus, []⟩ : Traced Bus)).2.2.history.reverse

/-- A processor that waits makes no access. -/
theorem accesses_stalled (h : 0 < m.cpu.stall) : m.accesses = [] := by
  rw [accesses, Processor.step_stalled h]
  rfl

/-- **A step asks for one page at most.** -/
theorem length_pagesAsked (m : Machine) : (pagesAsked m.accesses).length ≤ 1 := by
  by_cases hstall : m.cpu.stall = 0
  · obtain ⟨trace, hfollows, hhistory, -⟩ :=
      step_traced m.cpu hstall (⟨m.bus, []⟩ : Traced Bus)
    rw [accesses, hhistory, List.append_nil, List.reverse_reverse]
    exact hfollows.length_pagesAsked
  · rw [accesses_stalled (UInt32.pos_iff_ne_zero.2 hstall)]
    exact Nat.zero_le 1

/-- What a step asks for is latched behind it, and nothing else. -/
theorem pagesAsked_accesses (hidle : m.bus.transferPage = none) :
    pagesAsked m.accesses = m.stepCpu.2.bus.transferPage.toList := by
  have hlatch : (m.cpu.step (⟨m.bus, []⟩ : Traced Bus)).2.2.space.transferPage =
      (pagesAsked (m.cpu.step (⟨m.bus, []⟩ : Traced Bus)).2.2.history).head? :=
    step_invariant Bus.transferPage_invariant m.cpu (s := (⟨m.bus, []⟩ : Traced Bus)) hidle
  have hstep : m.cpu.step m.bus = _ := morphism_space.step m.cpu (⟨m.bus, []⟩ : Traced Bus)
  have hlength := length_pagesAsked m
  show _ = (m.cpu.step m.bus).2.2.transferPage.toList
  rw [hstep, hlatch, accesses]
  rw [accesses] at hlength
  simp only [pagesAsked, List.filterMap_reverse, List.length_reverse] at hlength ⊢
  -- a list of one page at most is its own reverse
  generalize (m.cpu.step (⟨m.bus, []⟩ : Traced Bus)).2.2.history.filterMap Access.page? = pages
    at hlength ⊢
  match pages with
  | [] | [_] => rfl
  | _ :: _ :: rest => exact absurd hlength (by simp)

theorem Attainable.transferPage (h : Attainable c rate m) : m.bus.transferPage = none := by
  induction h with
  | reachable h => exact h.transferPage
  | perform op _ ih => exact transferPage_perform ih op
  | @load m saved _ ih =>
      obtain ⟨-, hload⟩ | ⟨-, hload⟩ := load_cases saved m
      · rw [hload]
        rfl
      · rw [hload]
        exact ih

/-! ## The copy -/

/-- The byte at an address of memory or of the cartridge. -/
def Bus.shown (address : UInt16) (b : Bus) : UInt8 :=
  if address < 0x2000 then b.peek address else b.board.read address

/-- Outside the registers a read does nothing. -/
theorem Bus.read_shown {address : UInt16} (h : address < 0x2000 ∨ 0x4020 ≤ address) (b : Bus) :
    b.read address = (b.shown address, b) := by
  by_cases hmemory : address < 0x2000
  · simp only [Bus.read, Bus.shown, if_pos hmemory]
  · have habove : 0x4020 ≤ address := h.resolve_left hmemory
    rw [UInt16.le_iff_toNat_le] at habove
    have hpicture : ¬ address < 0x4000 := by
      rw [UInt16.lt_iff_toNat_lt]
      exact Nat.not_lt.2 (Nat.le_trans (by decide) habove)
    have hdevice : ¬ address < 0x4020 := by
      rw [UInt16.lt_iff_toNat_lt]
      exact Nat.not_lt.2 habove
    simp only [Bus.read, Bus.shown, if_neg hmemory, if_neg hpicture, if_neg hdevice]

/-- The bus with other sprites. -/
def Bus.withSprites (sprites : SpriteMemory) (b : Bus) : Bus :=
  { b with picture := { b.picture with sprites } }

theorem copySprites_shown {source : UInt16} (h : source < 0x2000 ∨ 0x4020 ≤ source) (n : Nat)
    (target : UInt8) (b : Bus) :
    copySprites (n + 1) source target b =
      copySprites n (source + 1) (target + 1)
        (b.withSprites (b.picture.sprites.write target.toNat (b.shown source))) := by
  rw [copySprites_succ, Bus.read_shown h]
  rfl

/-- **Copying.** From places outside the registers, each byte arrives in its cell, whatever
wraps, and nothing but sprite memory is changed. -/
theorem copySprites_eq {n : Nat} (hn : n ≤ 256) (source : UInt16) (target : UInt8) (b : Bus)
    (h : ∀ k < n, source + .ofNat k < 0x2000 ∨ 0x4020 ≤ source + .ofNat k) :
    ∃ sprites, copySprites n source target b = b.withSprites sprites ∧
      (∀ k < n, sprites.read (target + .ofNat k).toNat = b.shown (source + .ofNat k)) ∧
      ∀ cell : UInt8, (∀ k < n, cell ≠ target + .ofNat k) →
        sprites.read cell.toNat = b.picture.sprites.read cell.toNat := by
  induction n generalizing source target b with
  | zero => exact ⟨b.picture.sprites, rfl, nofun, fun _ _ => rfl⟩
  | succ n ih =>
      have hsource : source + .ofNat 0 = source := UInt16.add_zero source
      have htarget : target + .ofNat 0 = target := UInt8.add_zero target
      have hfirst := h 0 (Nat.succ_pos n)
      rw [hsource] at hfirst
      let written := b.picture.sprites.write target.toNat (b.shown source)
      obtain ⟨sprites, hcopy, hcopied, hothers⟩ :=
        ih (Nat.le_of_succ_le hn) (source + 1) (target + 1) (b.withSprites written)
          fun k hk => by
            rw [Word.add_succ_ofNat]
            exact h (k + 1) (Nat.succ_lt_succ hk)
      have hcell (cell : UInt8) : written.read cell.toNat =
          if target = cell then b.shown source else b.picture.sprites.read cell.toNat := by
        have hmod (v : UInt8) : v.toNat % 256 = v.toNat := Nat.mod_eq_of_lt v.toNat_lt
        show (b.picture.sprites.write target.toNat (b.shown source)).read cell.toNat = _
        rw [Memory.read_write, hmod, hmod]
        simp only [UInt8.toNat_inj]
      refine ⟨sprites, ?_, fun k hk => ?_, fun cell hcells => ?_⟩
      · rw [copySprites_shown hfirst, hcopy]
        rfl
      · cases k with
        | zero =>
            -- the cells that follow are others
            rw [hsource, htarget, hothers target fun k hk => ?_]
            · show written.read target.toNat = _
              rw [hcell, if_pos rfl]
            · rw [Byte.add_succ_ofNat]
              exact (Byte.add_ofNat_ne (Nat.succ_pos k) (by omega)).symm
        | succ k =>
            rw [← Byte.add_succ_ofNat, ← Word.add_succ_ofNat]
            exact hcopied k (Nat.lt_of_succ_lt_succ hk)
      · rw [hothers cell fun k hk => ?_]
        · show written.read cell.toNat = _
          have hne := hcells 0 (Nat.succ_pos n)
          rw [htarget] at hne
          rw [hcell, if_neg hne.symm]
        · rw [Byte.add_succ_ofNat]
          exact hcells (k + 1) (Nat.succ_lt_succ hk)

/-- The cycles that a copy takes: one more from an odd cycle on. -/
def copyCycles (cycles : UInt64) : Nat := if cycles.toNat % 2 = 1 then 514 else 513

theorem toNat_transferCycles (cycles : UInt64) :
    (if cycles % 2 == 1 then transferCycles + 1 else transferCycles).toNat = copyCycles cycles := by
  have hodd : (cycles % 2 == 1) = decide (cycles.toNat % 2 = 1) := by
    rw [Bool.eq_iff_iff, beq_iff_eq, decide_eq_true_iff, ← UInt64.toNat_inj, UInt64.toNat_mod]
    rfl
  rw [hodd, copyCycles]
  by_cases h : cycles.toNat % 2 = 1
  · simp only [h, decide_true, if_true]
    rfl
  · simp only [h, decide_false, Bool.false_eq_true, if_false]
    rfl

theorem stall_transferSprites {page : UInt8} (h : m.bus.transferPage = some page)
    (hstall : m.cpu.stall = 0) :
    m.transferSprites.cpu.stall.toNat = copyCycles m.cpu.cycles := by
  have hwait := toNat_transferCycles m.cpu.cycles
  have hle : copyCycles m.cpu.cycles ≤ 514 := by
    unfold copyCycles
    split <;> omega
  unfold transferSprites
  rw [h]
  show (m.cpu.addStall _).stall.toNat = _
  rw [Processor.toNat_stall_addStall, hwait, hstall]
  · exact Nat.zero_add _
  · rw [hwait, hstall]
    exact Nat.lt_of_le_of_lt (Nat.add_le_add_left hle _) (by decide)

/-- A page below the registers of the picture unit, or above those of the other devices. -/
theorem outside_of_page {page : UInt8} (hpage : page < 0x20 ∨ 0x40 < page) (i : UInt8) :
    Word.ofBytes i page < 0x2000 ∨ 0x4020 ≤ Word.ofBytes i page := by
  have hi := i.toNat_lt
  simp only [UInt16.lt_iff_toNat_lt, UInt16.le_iff_toNat_le, UInt8.lt_iff_toNat_lt,
    Word.toNat_ofBytes, UInt8.reduceToNat, UInt16.reduceToNat] at hpage ⊢
  omega

theorem ofBytes_add (page i : UInt8) :
    Word.ofBytes 0 page + .ofNat i.toNat = Word.ofBytes i page := by
  have hi := i.toNat_lt
  have hpage := page.toNat_lt
  rw [← UInt16.toNat_inj, UInt16.toNat_add, Word.toNat_ofBytes, Word.toNat_ofBytes,
    UInt16.toNat_ofNat']
  simp only [UInt8.reduceToNat]
  omega

/-- A page that is latched is copied from its first byte to its last, and the latch is
emptied. The address of sprite memory stays, and so does everything else. -/
theorem transferSprites_eq {page : UInt8} (h : m.bus.transferPage = some page)
    (hpage : page < 0x20 ∨ 0x40 < page) :
    ∃ sprites, m.transferSprites =
        { cpu := { m.cpu with stall := m.transferSprites.cpu.stall }
          bus := { m.bus.withSprites sprites with transferPage := none } } ∧
      ∀ i : UInt8, sprites.read (m.bus.picture.spriteAddress + i).toNat =
        (m.bus.read (Word.ofBytes i page)).1 := by
  have hplace (k : Nat) (hk : k < 256) : Word.ofBytes 0 page + .ofNat k =
      Word.ofBytes (.ofNat k) page := by
    rw [← ofBytes_add page (.ofNat k), UInt8.toNat_ofNat_of_lt' hk]
  obtain ⟨sprites, hcopy, hcopied, -⟩ :=
    copySprites_eq (Nat.le_refl 256) (Word.ofBytes 0 page) m.bus.picture.spriteAddress
      { m.bus with transferPage := none } fun k hk => by
        rw [hplace k hk]
        exact outside_of_page hpage _
  refine ⟨sprites, ?_, fun i => ?_⟩
  · unfold transferSprites
    simp only [h, hcopy]
    rfl
  · have hcell := hcopied i.toNat i.toNat_lt
    rw [UInt8.ofNat_toNat, ofBytes_add] at hcell
    rw [hcell, Bus.read_shown (outside_of_page hpage i)]
    rfl

/-! ## Waiting -/

/-- The samples that are fetched in so many cycles of the sound unit. -/
def fetches : (cycles : Nat) → Machine → Nat
  | 0, _ => 0
  | n + 1, m => m.bus.sound.tick.request?.isSome.toNat + fetches n m.tickSound

/-- Every fetch is waited for. -/
theorem stall_catchUpSound {make : Make} (h : Intact make m) {cycles : Nat}
    (hstall : m.cpu.stall.toNat + 4 * cycles < 2 ^ 32) :
    (m.catchUpSound cycles).cpu.stall.toNat = m.cpu.stall.toNat + 4 * m.fetches cycles := by
  induction cycles generalizing m with
  | zero => rfl
  | succ n ih =>
      have hfirst : m.tickSound.cpu.stall.toNat =
          m.cpu.stall.toNat + 4 * m.bus.sound.tick.request?.isSome.toNat := by
        rw [tickSound_eq h.bus.sound]
        cases m.bus.sound.tick.request? with
        | none => rfl
        | some address =>
            have hfits : m.cpu.stall.toNat + sampleCycles.toNat < 2 ^ 32 := by
              simp only [sampleCycles, UInt32.reduceToNat]
              omega
            exact Processor.toNat_stall_addStall hfits
      have hle := Bool.toNat_le m.bus.sound.tick.request?.isSome
      have hrest := ih h.tickSound (by omega)
      show (m.tickSound.catchUpSound n).cpu.stall.toNat = _
      rw [hrest, hfirst, fetches]
      omega

theorem stall_catchUpPicture (dots : Nat) (m : Machine) :
    (m.catchUpPicture dots).cpu.stall = m.cpu.stall := by
  induction dots generalizing m with
  | zero => rfl
  | succ n ih =>
      have hdot : m.tickPicture.cpu.stall = m.cpu.stall := by
        rw [tickPicture_eq]
        show (if _ then m.cpu.request .nmi else m.cpu).stall = _
        split
        · exact m.cpu.stall_request .nmi
        · rfl
      exact (ih m.tickPicture).trans hdot

theorem stall_requestIrq (m : Machine) : m.requestIrq.cpu.stall = m.cpu.stall := by
  unfold requestIrq
  split
  · exact m.cpu.stall_request .irq
  · rfl

/-! ## What is left of it at the end of the step -/

theorem sprites_takeNmi (p : PictureUnit) : p.takeNmi.2.sprites = p.sprites := by
  unfold PictureUnit.takeNmi
  split <;> rfl

/-- Drawing leaves sprite memory alone. -/
theorem sprites_catchUpPicture (dots : Nat) (m : Machine) :
    (m.catchUpPicture dots).bus.picture.sprites = m.bus.picture.sprites := by
  induction dots generalizing m with
  | zero => rfl
  | succ n ih =>
      have hdot : m.tickPicture.bus.picture.sprites = m.bus.picture.sprites := by
        obtain ⟨v, hheld⟩ := m.bus.picture.holdings_tick m.bus.board
        rw [tickPicture_eq]
        show (m.bus.picture.tick m.bus.board).takeNmi.2.sprites = _
        rw [sprites_takeNmi]
        exact congrArg Holdings.sprites hheld
      exact (ih m.tickPicture).trans hdot

theorem sprites_requestIrq (m : Machine) :
    m.requestIrq.bus.picture.sprites = m.bus.picture.sprites := by
  unfold requestIrq
  split <;> rfl

/-- What is in sprite memory right after the transfer is there at the end of the step. -/
theorem sprites_run (h : Attainable c rate m) :
    m.run.2.bus.picture.sprites = m.stepCpu.2.transferSprites.bus.picture.sprites := by
  have hmoment : Moment c rate m.stepCpu.2.transferSprites :=
    .act .transferSprites (.act .stepCpu (.idle h))
  obtain ⟨stall, sound, hsound⟩ := catchUpSound_frame hmoment m.stepCpu.1.toNat
  show ((m.stepCpu.2.transferSprites.catchUpSound m.stepCpu.1.toNat).catchUpPicture
    (3 * m.stepCpu.1.toNat)).requestIrq.bus.picture.sprites = _
  rw [sprites_requestIrq, sprites_catchUpPicture, hsound]

theorem stall_run (h : Attainable c rate m)
    (hstall : m.stepCpu.2.transferSprites.cpu.stall.toNat ≤ 514) :
    m.run.2.cpu.stall.toNat = m.stepCpu.2.transferSprites.cpu.stall.toNat +
      4 * m.stepCpu.2.transferSprites.fetches m.run.1.toNat := by
  have hintact := h.intact.stepCpu.transferSprites
  have hcost := (run_cost m).2
  show ((m.stepCpu.2.transferSprites.catchUpSound m.run.1.toNat).catchUpPicture
    (3 * m.run.1.toNat)).requestIrq.cpu.stall.toNat = _
  rw [stall_requestIrq, stall_catchUpPicture, stall_catchUpSound hintact (by omega)]

/-- **A page is copied once.** In a step of any machine that can be had with a cartridge:

* no page is latched before the step and none is behind it. Without a write to $4014 nothing
  is copied.
* With a write the processor was not waiting, it is the only write of that kind in the
  step, and its page is what is copied. The processor then waits 513 cycles, or 514 if its
  count of cycles is odd after the instruction, and four more for each sample that is
  fetched while the sound unit catches up.
* Outside the pages $20 to $40 the copy changes sprite memory and the waiting, and nothing
  else. At the end of the step, byte `i` of the page, as the bus shows it right after the
  instruction, is `i` cells behind the address of sprite memory, around its end. -/
theorem transfer_once (h : Attainable c rate m) :
    let after := m.stepCpu.2
    let copied := after.transferSprites
    m.bus.transferPage = none ∧ m.run.2.bus.transferPage = none ∧
    (pagesAsked m.accesses = [] → copied = after) ∧
    ∀ page, Access.write 0x4014 page ∈ m.accesses →
      m.cpu.stall = 0 ∧ pagesAsked m.accesses = [page] ∧ after.bus.transferPage = some page ∧
      m.run.2.cpu.stall.toNat =
        (if after.cpu.cycles.toNat % 2 = 1 then 514 else 513) +
          4 * copied.fetches m.run.1.toNat ∧
      (page < 0x20 ∨ 0x40 < page →
        copied =
            { cpu := { after.cpu with stall := copied.cpu.stall }
              bus :=
                { after.bus with
                  picture := { after.bus.picture with sprites := copied.bus.picture.sprites }
                  transferPage := none } } ∧
        ∀ i : UInt8,
          m.run.2.bus.picture.sprites.read (after.bus.picture.spriteAddress + i).toNat =
            (after.bus.read (Word.ofBytes i page)).1) := by
  intro after copied
  have hidle := h.transferPage
  have hasked := pagesAsked_accesses hidle
  refine ⟨hidle, transferPage_run m, fun hnone => ?_, fun page hwrite => ?_⟩
  · rw [hnone] at hasked
    exact transferSprites_idle (Option.toList_eq_nil_iff.1 hasked.symm)
  have hstall : m.cpu.stall = 0 := by
    by_contra hwaits
    rw [accesses_stalled (UInt32.pos_iff_ne_zero.2 hwaits)] at hwrite
    cases hwrite
  have hlatched : after.bus.transferPage = some page := by
    have hmem := mem_pagesAsked.2 hwrite
    rw [hasked] at hmem
    exact Option.mem_toList.1 hmem
  have hpages : pagesAsked m.accesses = [page] := by
    rw [hasked]
    exact congrArg Option.toList hlatched
  have hnow : after.cpu.stall = 0 := (Processor.ready_step hstall m.bus).1
  have hwait : copied.cpu.stall.toNat = copyCycles after.cpu.cycles :=
    stall_transferSprites hlatched hnow
  refine ⟨hstall, hpages, hlatched, ?_, fun hpage => ?_⟩
  · have hle : copied.cpu.stall.toNat ≤ 514 := by
      rw [hwait, copyCycles]
      split <;> omega
    rw [stall_run h hle]
    exact congrArg (· + _) hwait
  · obtain ⟨sprites, hcopied, hcells⟩ := transferSprites_eq hlatched hpage
    have hsprites : copied.bus.picture.sprites = sprites :=
      congrArg (fun n => n.bus.picture.sprites) hcopied
    refine ⟨?_, fun i => ?_⟩
    · rw [hsprites]
      exact hcopied
    · rw [sprites_run h]
      show copied.bus.picture.sprites.read _ = _
      rw [hsprites]
      exact hcells i

/-- A program that writes its accumulator there first of all, and so asks for page zero. -/
theorem transfer_once_first :
    let m := ofCartridge transferring 48000
    Access.write 0x4014 0 ∈ m.accesses ∧
      pagesAsked m.accesses = [0] ∧
      ∀ i : UInt8,
        m.run.2.bus.picture.sprites.read (m.stepCpu.2.bus.picture.spriteAddress + i).toNat =
          (m.stepCpu.2.bus.read (Word.ofBytes i 0)).1 := by
  intro m
  have hm : Attainable transferring 48000 m := .reachable .cartridge
  have hwrite : Access.write 0x4014 0 ∈ m.accesses := by decide +kernel
  obtain ⟨-, -, -, hasks⟩ := transfer_once hm
  obtain ⟨-, hpages, -, -, hcopies⟩ := hasks 0 hwrite
  exact ⟨hwrite, hpages, (hcopies (.inl (by decide))).2⟩

end Famicom.Machine
