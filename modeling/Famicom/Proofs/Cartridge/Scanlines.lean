import Famicom.Proofs.Cartridge.Events

/-!
# When the counting board requests an interrupt

The counter of lines is reloaded when it is empty, and requests an interrupt when it
becomes empty. So a zero means two things, and the first line behind the registers have
been written only fills the counter:

* **registers** — of all writes those from $C000 on set the counter and the gate in front
  of its requests, and no other does (`CountingCircuit.write_lines`);
* **phase** — what is in the counter and the number of lines counted so far add up to a
  multiple of the reload value plus one (`CountingCircuit.InPhase`);
* **requests** — the counter becomes empty once in that many lines
  (`CountingCircuit.InPhase.request_countLine`, `Board.request_setup`).
-/

namespace Famicom.Cartridge

namespace CountingCircuit

/-! ## The counter -/

/-- The counter, so many lines behind the last time that it was emptied. -/
structure InPhase (s : CountingCircuit) (reload : UInt8) (lines : Nat) : Prop where
  loads : s.reload = reload
  counter : s.counter.toNat ≤ reload.toNat
  phase : reload.toNat + 1 ∣ s.counter.toNat + lines

variable {s : CountingCircuit} {reload : UInt8} {lines : Nat}

theorem inPhase_emptied (hreload : s.reload = reload) (hcounter : s.counter = 0) :
    s.InPhase reload 0 := by
  refine ⟨hreload, ?_, ?_⟩
  · rw [hcounter]
    exact Nat.zero_le _
  · rw [hcounter]
    exact Nat.dvd_zero _

/-- A line is counted down, and an empty counter is filled: both are one place further in
the phase. -/
theorem countLine_cases (s : CountingCircuit) :
    (s.counter = 0 ∧ s.countLine = { s with counter := s.reload }) ∨
    (s.counter ≠ 0 ∧ (s.counter - 1).toNat + 1 = s.counter.toNat ∧
      s.countLine =
        { s with
          counter := s.counter - 1
          request := s.request || (s.counter - 1 == 0 && s.enabled) }) := by
  unfold countLine
  by_cases hempty : s.counter = 0
  · exact .inl ⟨hempty, if_pos hempty⟩
  · have hone : 1 ≤ s.counter.toNat := by
      have hne := mt UInt8.toNat_inj.1 hempty
      rw [UInt8.toNat_zero] at hne
      omega
    have hdown : (s.counter - 1).toNat = s.counter.toNat - 1 :=
      UInt8.toNat_sub_of_le _ _ (UInt8.le_iff_toNat_le.2 hone)
    refine .inr ⟨hempty, by omega, if_neg hempty⟩

theorem InPhase.countLine (h : s.InPhase reload lines) : s.countLine.InPhase reload (lines + 1) := by
  have hphase := h.phase
  rcases s.countLine_cases with ⟨hempty, hline⟩ | ⟨-, hdown, hline⟩
  · rw [hline]
    rw [hempty, UInt8.toNat_zero, Nat.zero_add] at hphase
    refine ⟨h.loads, ?_, ?_⟩
    · exact Nat.le_of_eq (congrArg UInt8.toNat h.loads)
    · have hsum : s.reload.toNat + (lines + 1) = lines + (reload.toNat + 1) := by
        rw [h.loads]
        omega
      rw [hsum]
      exact Nat.dvd_add hphase (Nat.dvd_refl _)
  · rw [hline]
    have hcounter := h.counter
    refine ⟨h.loads, ?_, ?_⟩
    · show (s.counter - 1).toNat ≤ reload.toNat
      omega
    · have hsum : (s.counter - 1).toNat + (lines + 1) = s.counter.toNat + lines := by omega
      rw [hsum]
      exact hphase

/-- A line requests an interrupt exactly if it completes a multiple of the reload value
plus one, and the reload value is not zero. -/
theorem InPhase.request_countLine (h : s.InPhase reload lines) :
    s.countLine.request = true ↔ s.request = true ∨
      (s.enabled = true ∧ 1 ≤ reload ∧ reload.toNat + 1 ∣ lines + 1) := by
  have hphase := h.phase
  have hreload : 1 ≤ reload ↔ 1 ≤ reload.toNat := UInt8.le_iff_toNat_le
  rcases s.countLine_cases with ⟨hempty, hline⟩ | ⟨-, hdown, hline⟩
  · -- two neighbouring numbers are multiples of one only
    rw [hempty, UInt8.toNat_zero, Nat.zero_add] at hphase
    have hnot : ¬ (s.enabled = true ∧ 1 ≤ reload ∧ reload.toNat + 1 ∣ lines + 1) := by
      rintro ⟨-, hone, hnext⟩
      have hdvd := (Nat.dvd_add_right hphase).1 hnext
      have hle := Nat.le_of_dvd Nat.one_pos hdvd
      rw [hreload] at hone
      omega
    rw [hline, or_iff_left hnot]
  · have hcounter := h.counter
    have hlast : s.counter - 1 = 0 ↔ reload.toNat + 1 ∣ lines + 1 := by
      have hsum : s.counter.toNat + lines = (s.counter - 1).toNat + (lines + 1) := by omega
      rw [hsum] at hphase
      rw [← UInt8.toNat_inj, UInt8.toNat_zero]
      constructor
      · intro hzero
        rwa [hzero, Nat.zero_add] at hphase
      · intro hnext
        exact Nat.eq_zero_of_dvd_of_lt ((Nat.dvd_add_left hnext).1 hphase) (by omega)
    have hone : 1 ≤ reload := hreload.2 (by omega)
    rw [hline]
    simp only [Bool.or_eq_true, Bool.and_eq_true, beq_iff_eq, hlast, hone, true_and]
    exact or_congr_right and_comm

theorem enabled_countLine (s : CountingCircuit) : s.countLine.enabled = s.enabled := by
  unfold countLine
  split <;> rfl

/-! ## The registers -/

/-- Below $C000 there are banks and mirroring, then the reload value and the counter, then
the gate of the requests. -/
theorem write_lines (c : Cartridge) {address : UInt16} (haddress : 0x8000 ≤ address)
    (value : UInt8) (s : CountingCircuit) :
    (address < 0xC000 ∧ (s.write c address value).reload = s.reload ∧
      (s.write c address value).counter = s.counter ∧
      (s.write c address value).enabled = s.enabled ∧
      (s.write c address value).request = s.request) ∨
    (0xC000 ≤ address ∧ address < 0xE000 ∧ ∃ reload counter,
      s.write c address value = { s with reload, counter }) ∨
    (0xE000 ≤ address ∧ address &&& 0x01 = 0 ∧
      s.write c address value = { s with enabled := false, request := false }) ∨
    (0xE000 ≤ address ∧ address &&& 0x01 = 1 ∧
      s.write c address value = { s with enabled := true }) := by
  have hlower := UInt16.le_iff_toNat_le.1 haddress
  have hupper := address.toNat_lt
  simp only [UInt16.reduceToNat] at hlower
  simp only [UInt16.lt_iff_toNat_lt, UInt16.le_iff_toNat_le, UInt16.reduceToNat]
  unfold write
  obtain ⟨hselection, hnumber⟩ | ⟨hselection, hnumber⟩ | ⟨hselection, hnumber⟩ |
    ⟨hselection, hnumber⟩ := selection_cases address
  all_goals
    obtain hparity | hparity := parity_cases address
    all_goals rw [hselection, hparity]
  · exact .inl ⟨by omega, rfl, rfl, rfl, rfl⟩
  · exact .inl ⟨by omega, rfl, rfl, rfl, rfl⟩
  · refine .inl ⟨by omega, ?_⟩
    by_cases hwiring : c.wiring = .fourScreen
    · simp only [hwiring, if_true, and_self]
    · simp only [hwiring, if_false, and_self]
  · exact .inl ⟨by omega, rfl, rfl, rfl, rfl⟩
  · exact .inr (.inl ⟨by omega, by omega, _, _, rfl⟩)
  · exact .inr (.inl ⟨by omega, by omega, _, _, rfl⟩)
  · exact .inr (.inr (.inl ⟨by omega, rfl, rfl⟩))
  · exact .inr (.inr (.inr ⟨by omega, rfl, rfl⟩))

end CountingCircuit

namespace Board

namespace Event

/-- The picture unit passes the place where a line is counted: dot 280 of a line of the
picture, or of the line in front of the first one, while the picture is rendered. -/
def clocks : Event → Bool
  | .step line dot rendering => dot = 280 ∧ rendering ∧ ¬ (240 ≤ line ∧ line ≤ 260)
  | _ => false

/-- A write to the reload value or to the counter. -/
def setsCounter : Event → Bool
  | .write address _ => 0xC000 ≤ address && address < 0xE000
  | _ => false

/-- A write to the gate of the requests, which an even address closes and an odd one
opens. -/
def gate? : Event → Option Bool
  | .write address _ => if 0xE000 ≤ address then some (address &&& 0x01 == 1) else none
  | _ => none

/-- Whether the gate is open behind an event. -/
def gateAfter (before : Bool) (e : Event) : Bool := e.gate?.getD before

/-- That is where the circuit looks at the position of the picture. -/
theorem clocks_step (line dot : UInt16) (rendering : Bool) :
    (step line dot rendering).clocks = CountingCircuit.counts line dot rendering := by
  have hlast : line ≤ 260 ↔ line < 261 := by
    simp only [UInt16.le_iff_toNat_le, UInt16.lt_iff_toNat_lt, UInt16.reduceToNat]
    omega
  rw [Bool.eq_iff_iff]
  simp only [clocks, CountingCircuit.counts, hlast, decide_eq_true_eq, Bool.and_eq_true,
    beq_iff_eq, Bool.not_eq_true', ← Bool.decide_and, decide_eq_false_iff_not, and_assoc]

theorem not_loads_of_clocks {e : Event} (h : e.clocks = true) : ¬ e.Loads := by
  cases e with
  | load saved => cases h
  | _ => exact id

theorem gate?_below {address : UInt16} (h : address < 0xE000) (value : UInt8) :
    (write address value).gate? = none :=
  if_neg (UInt16.not_le.2 h)

theorem gate?_above {address : UInt16} (h : 0xE000 ≤ address) (value : UInt8) :
    (write address value).gate? = some (address &&& 0x01 == 1) :=
  if_pos h

end Event

variable {b : Board} {s : CountingCircuit} {e : Event}

theorem request_eq (h : b.circuit = .counting s) : b.request = s.request := by
  rw [request, h]

theorem circuit_write (h : b.circuit = .counting s) {address : UInt16} (haddress : 0x8000 ≤ address)
    (value : UInt8) :
    (b.after (.write address value)).circuit = .counting (s.write b.cartridge address value) := by
  show (b.write address value).circuit = _
  unfold Board.write
  simp only [ge_iff_le, if_pos haddress, h, Circuit.write]

/-- What an event does to the counter, and to its requests. -/
theorem counting_after (h : b.circuit = .counting s) (hload : ¬ e.Loads) :
    ∃ t, (b.after e).circuit = .counting t ∧ t.enabled = e.gateAfter s.enabled ∧
      ((e.clocks = true ∧ e.gate? = none ∧ t = s.countLine) ∨
       (e.clocks = false ∧ t.request = (s.request && e.gate? != some false) ∧
        (e.setsCounter = false → t.reload = s.reload ∧ t.counter = s.counter))) := by
  cases e with
  | write address value =>
      by_cases hupper : 0x8000 ≤ address
      · refine ⟨_, circuit_write h hupper value, ?_⟩
        rcases CountingCircuit.write_lines b.cartridge hupper value s with
          ⟨hbanks, hreload, hcounter, henabled, hrequest⟩ | ⟨hlow, hhigh, reload, counter, hwrite⟩ |
          ⟨hgate, heven, hwrite⟩ | ⟨hgate, hodd, hwrite⟩
        · have hbelow := Event.gate?_below (UInt16.lt_trans hbanks (by decide)) value
          rw [Event.gateAfter, hbelow]
          exact ⟨henabled, .inr ⟨rfl, hrequest.trans (Bool.and_true _).symm,
            fun _ => ⟨hreload, hcounter⟩⟩⟩
        · rw [Event.gateAfter, Event.gate?_below hhigh, hwrite]
          refine ⟨rfl, .inr ⟨rfl, (Bool.and_true _).symm, fun hother => ?_⟩⟩
          simp only [Event.setsCounter, hlow, hhigh, decide_true, Bool.and_self] at hother
          cases hother
        · rw [Event.gateAfter, Event.gate?_above hgate, heven, hwrite]
          exact ⟨rfl, .inr ⟨rfl, (Bool.and_false _).symm, fun _ => ⟨rfl, rfl⟩⟩⟩
        · rw [Event.gateAfter, Event.gate?_above hgate, hodd, hwrite]
          exact ⟨rfl, .inr ⟨rfl, (Bool.and_true _).symm, fun _ => ⟨rfl, rfl⟩⟩⟩
      · have hcircuit : (b.write address value).circuit = .counting s := by
          unfold Board.write
          simp only [ge_iff_le, if_neg hupper]
          split <;> exact h
        have hbelow := Event.gate?_below
          (UInt16.lt_trans (UInt16.not_le.1 hupper) (by decide)) value
        rw [Event.gateAfter, hbelow]
        exact ⟨s, hcircuit, rfl, .inr ⟨rfl, (Bool.and_true _).symm, fun _ => ⟨rfl, rfl⟩⟩⟩
  | writePattern address value =>
      exact ⟨s, h, rfl, .inr ⟨rfl, (Bool.and_true _).symm, fun _ => ⟨rfl, rfl⟩⟩⟩
  | step line dot rendering =>
      show ∃ t, (b.step line dot rendering).circuit = _ ∧ _
      rw [Event.clocks_step]
      unfold Board.step
      by_cases hcounts : CountingCircuit.counts line dot rendering = true
      · rw [if_pos hcounts, h]
        exact ⟨s.countLine, rfl, s.enabled_countLine, .inl ⟨hcounts, rfl, rfl⟩⟩
      · rw [if_neg hcounts]
        exact ⟨s, h, rfl, .inr ⟨Bool.not_eq_true _ ▸ hcounts, (Bool.and_true _).symm,
          fun _ => ⟨rfl, rfl⟩⟩⟩
  | setWork data =>
      exact ⟨s, h, rfl, .inr ⟨rfl, (Bool.and_true _).symm, fun _ => ⟨rfl, rfl⟩⟩⟩
  | load saved => exact absurd trivial hload

theorem afterAll_append (b : Board) (before behind : List Event) :
    b.afterAll (before ++ behind) = (b.afterAll before).afterAll behind :=
  List.foldl_append

/-! ## Histories -/

namespace Event

/-- An event that leaves reload value and counter to the lines: neither a load nor a write
to one of them. -/
def Quiet (e : Event) : Prop := ¬ e.Loads ∧ e.setsCounter = false

/-- Whether the gate is open behind a history. -/
def gateAfterAll (before : Bool) (events : List Event) : Bool := events.foldl gateAfter before

end Event

/-- The counter of the board, so many lines behind the last time that it was emptied. -/
def Counts (b : Board) (reload : UInt8) (lines : Nat) (gate : Bool) : Prop :=
  ∃ s, b.circuit = .counting s ∧ s.InPhase reload lines ∧ s.enabled = gate

variable {reload : UInt8} {lines : Nat} {gate : Bool} {events : List Event}

theorem Counts.after (h : b.Counts reload lines gate) (hquiet : e.Quiet) :
    (b.after e).Counts reload (lines + e.clocks.toNat) (e.gateAfter gate) := by
  obtain ⟨s, hcircuit, hphase, hgate⟩ := h
  obtain ⟨t, hafter, henabled, hchange⟩ := counting_after hcircuit hquiet.1
  refine ⟨t, hafter, ?_, hgate ▸ henabled⟩
  rcases hchange with ⟨hclocks, -, hline⟩ | ⟨hidle, -, hkeeps⟩
  · rw [hclocks, hline]
    exact hphase.countLine
  · obtain ⟨hreload, hcounter⟩ := hkeeps hquiet.2
    rw [hidle]
    exact ⟨hreload.trans hphase.loads, hcounter ▸ hphase.counter, hcounter ▸ hphase.phase⟩

/-- Through any history that leaves the counter to the lines, the lines are counted. -/
theorem Counts.afterAll (h : b.Counts reload lines gate) (hquiet : ∀ e ∈ events, e.Quiet) :
    (b.afterAll events).Counts reload (lines + events.countP Event.clocks)
      (Event.gateAfterAll gate events) := by
  induction events generalizing b lines gate with
  | nil => exact h
  | cons e rest ih =>
      obtain ⟨hfirst, hrest⟩ := List.forall_mem_cons.1 hquiet
      have hall := ih (h.after hfirst) hrest
      have hcount : lines + e.clocks.toNat + rest.countP Event.clocks =
          lines + (e :: rest).countP Event.clocks := by
        rw [List.countP_cons]
        cases e.clocks <;> simp only [Bool.toNat_true, Bool.toNat_false, if_true,
          Bool.false_eq_true, if_false] <;> omega
      rw [hcount] at hall
      exact hall

/-- The next line that is counted, and whether it requests an interrupt. -/
theorem Counts.request_after (h : b.Counts reload lines gate) (hclocks : e.clocks = true) :
    (b.after e).request = true ↔ b.request = true ∨
      (gate = true ∧ 1 ≤ reload ∧ reload.toNat + 1 ∣ lines + 1) := by
  obtain ⟨s, hcircuit, hphase, hgate⟩ := h
  obtain ⟨t, hafter, -, ⟨-, -, hline⟩ | ⟨hidle, -⟩⟩ :=
    counting_after hcircuit (Event.not_loads_of_clocks hclocks)
  · rw [request_eq hcircuit, request_eq hafter, hline, hphase.request_countLine, hgate]
  · rw [hclocks] at hidle
    cases hidle

/-- Where the gate is closed there is no request left. -/
theorem request_closed (h : b.circuit = .counting s) (hload : ¬ e.Loads)
    (hgate : e.gate? = some false) : (b.after e).request = false := by
  obtain ⟨t, hafter, -, ⟨-, hopen, -⟩ | ⟨-, hkept, -⟩⟩ := counting_after h hload
  · rw [hgate] at hopen
    cases hopen
  · rw [request_eq hafter, hkept, hgate]
    exact Bool.and_false _

/-- A request is taken back where the gate is closed, and nowhere else. -/
theorem request_after_iff (h : b.request = true) (hload : ¬ e.Loads) :
    (b.after e).request = true ↔ e.gate? ≠ some false := by
  obtain ⟨s, hcircuit⟩ : ∃ s, b.circuit = .counting s := by
    unfold request at h
    split at h
    · exact ⟨_, ‹_›⟩
    · cases h
  have hrequest : s.request = true := request_eq hcircuit ▸ h
  obtain ⟨t, hafter, -, hchange⟩ := counting_after hcircuit hload
  rw [request_eq hafter]
  rcases hchange with ⟨-, hgate, hline⟩ | ⟨-, hkept, -⟩
  · have hcounted : s.countLine.request = true := by
      rcases s.countLine_cases with ⟨-, hcount⟩ | ⟨-, -, hcount⟩
      · rw [hcount]
        exact hrequest
      · rw [hcount, hrequest]
        rfl
    rw [hline, hgate]
    exact iff_of_true hcounted (by decide)
  · rw [hkept, hrequest, Bool.true_and, bne_iff_ne]

theorem request_afterAll (h : b.request = true)
    (hevents : ∀ e ∈ events, ¬ e.Loads ∧ e.gate? ≠ some false) :
    (b.afterAll events).request = true := by
  induction events generalizing b with
  | nil => exact h
  | cons e rest ih =>
      obtain ⟨⟨hload, hgate⟩, hrest⟩ := List.forall_mem_cons.1 hevents
      exact ih ((request_after_iff h hload).2 hgate) hrest

/-- Without lines there is no new request. -/
theorem request_idle (h : b.Counts reload lines gate) (hrequest : b.request = false)
    (hevents : ∀ e ∈ events, e.Quiet ∧ e.clocks = false) :
    (b.afterAll events).request = false := by
  induction events generalizing b gate lines with
  | nil => exact hrequest
  | cons e rest ih =>
      obtain ⟨⟨hquiet, hidle⟩, hrest⟩ := List.forall_mem_cons.1 hevents
      obtain ⟨s, hcircuit, -⟩ := id h
      obtain ⟨t, hafter, -, ⟨hclocks, -⟩ | ⟨-, hkept, -⟩⟩ := counting_after hcircuit hquiet.1
      · rw [hclocks] at hidle
        cases hidle
      · refine ih (h.after hquiet) ?_ hrest
        rw [request_eq hafter, hkept, ← request_eq hcircuit, hrequest, Bool.false_and]

/-! ## The setup -/

/-- The writes that start the counter, with other events between them: the reload value,
the counter emptied, and the gate closed and opened. -/
def setup (reload : UInt8) (values : Fin 3 → UInt8) (between : Fin 3 → List Event) :
    List Event :=
  .write 0xC000 reload :: between 0 ++ .write 0xC001 (values 0) :: between 1 ++
    .write 0xE000 (values 1) :: between 2 ++ [.write 0xE001 (values 2)]

/-- A board with a counter that is reloaded with this value. -/
def Reloads (b : Board) (reload : UInt8) : Prop :=
  ∃ s, b.circuit = .counting s ∧ s.reload = reload

theorem Reloads.after (h : b.Reloads reload) (hquiet : e.Quiet) : (b.after e).Reloads reload := by
  obtain ⟨s, hcircuit, hreload⟩ := h
  obtain ⟨t, hafter, -, ⟨-, -, hline⟩ | ⟨-, -, hkeeps⟩⟩ := counting_after hcircuit hquiet.1
  · refine ⟨t, hafter, ?_⟩
    rw [hline]
    rcases s.countLine_cases with ⟨-, hcount⟩ | ⟨-, -, hcount⟩
    · rw [hcount]
      exact hreload
    · rw [hcount]
      exact hreload
  · exact ⟨t, hafter, (hkeeps hquiet.2).1.trans hreload⟩

theorem Reloads.afterAll (h : b.Reloads reload) (hquiet : ∀ e ∈ events, e.Quiet) :
    (b.afterAll events).Reloads reload := by
  induction events generalizing b with
  | nil => exact h
  | cons e rest ih =>
      obtain ⟨hfirst, hrest⟩ := List.forall_mem_cons.1 hquiet
      exact ih (h.after hfirst) hrest

theorem reloads_written (h : b.circuit.kind = .counting) (reload : UInt8) :
    (b.after (.write 0xC000 reload)).Reloads reload := by
  cases hcircuit : b.circuit with
  | linear => rw [hcircuit] at h; cases h
  | serial s => rw [hcircuit] at h; cases h
  | counting s => exact ⟨_, circuit_write hcircuit (by decide) reload, rfl⟩

/-- Behind the write to $C001 the counter is empty. -/
theorem Reloads.counts (h : b.Reloads reload) (value : UInt8) :
    ∃ gate, (b.after (.write 0xC001 value)).Counts reload 0 gate := by
  obtain ⟨s, hcircuit, hreload⟩ := h
  exact ⟨s.enabled, _, circuit_write hcircuit (by decide) value,
    CountingCircuit.inPhase_emptied hreload rfl, rfl⟩

/-- The setup leaves an empty counter, an open gate and no request. -/
theorem counts_setup (h : b.circuit.kind = .counting) (reload : UInt8) (values : Fin 3 → UInt8)
    {between : Fin 3 → List Event} (hfirst : ∀ e ∈ between 0, e.Quiet)
    (hidle : ∀ i > 0, ∀ e ∈ between i, e.Quiet ∧ e.clocks = false) :
    (b.afterAll (setup reload values between)).Counts reload 0 true ∧
      (b.afterAll (setup reload values between)).request = false := by
  have hone := hidle 1 (by decide)
  have htwo := hidle 2 (by decide)
  have hcount {events : List Event} (hevents : ∀ e ∈ events, e.Quiet ∧ e.clocks = false) :
      events.countP Event.clocks = 0 :=
    List.countP_eq_zero.2 fun e he => by rw [(hevents e he).2]; exact Bool.false_ne_true
  -- up to the empty counter
  have hreloads := (reloads_written h reload).afterAll hfirst
  obtain ⟨gate, hempty⟩ := hreloads.counts (values 0)
  have hsecond := hempty.afterAll fun e he => (hone e he).1
  rw [hcount hone] at hsecond
  -- the gate is closed, and the request taken back
  have hclosed := hsecond.after (e := .write 0xE000 (values 1)) ⟨id, rfl⟩
  obtain ⟨s, hcircuit, -⟩ := hsecond
  have hrequest := request_closed hcircuit (e := .write 0xE000 (values 1)) id rfl
  -- and it is opened again
  have hthird := hclosed.afterAll fun e he => (htwo e he).1
  rw [hcount htwo] at hthird
  have hopened := hthird.after (e := .write 0xE001 (values 2)) ⟨id, rfl⟩
  have hrest : ∀ e ∈ between 2 ++ [.write 0xE001 (values 2)], e.Quiet ∧ e.clocks = false :=
    List.forall_mem_append.2 ⟨htwo, List.forall_mem_singleton.2 ⟨⟨id, rfl⟩, rfl⟩⟩
  have hsilent := request_idle hclosed hrequest hrest
  rw [afterAll_append] at hsilent
  simp only [setup, List.cons_append, List.append_assoc, afterAll_cons, afterAll_append,
    afterAll_nil] at hsilent ⊢
  exact ⟨hopened, hsilent⟩

/-- **The period of the requests.** Behind the setup, whatever else is written and drawn as
long as it leaves the counter alone, a line requests an interrupt exactly if the gate is
open and the number of the line is a multiple of the reload value plus one, which is not
zero. -/
theorem request_setup (h : b.circuit.kind = .counting) (reload : UInt8) (values : Fin 3 → UInt8)
    {between : Fin 3 → List Event} (hfirst : ∀ e ∈ between 0, e.Quiet)
    (hidle : ∀ i > 0, ∀ e ∈ between i, e.Quiet ∧ e.clocks = false)
    (hevents : ∀ e ∈ events, e.Quiet) (hclocks : e.clocks = true) :
    ((b.afterAll (setup reload values between ++ events)).after e).request = true ↔
      (b.afterAll (setup reload values between ++ events)).request = true ∨
        (Event.gateAfterAll true events = true ∧ 1 ≤ reload ∧
          reload.toNat + 1 ∣ events.countP Event.clocks + 1) := by
  have hcounts := (counts_setup h reload values hfirst hidle).1.afterAll hevents
  rw [← afterAll_append, Nat.zero_add] at hcounts
  exact hcounts.request_after hclocks

end Board

end Famicom.Cartridge
