import Chip8.Machine.Dump
import Chip8.Proofs.Listing
import Chip8.Proofs.Writes

/-! # Listings, dumps and traces agree

A dump of memory writes the address and the word of a line of a listing, and a trace the address and
the instruction. A loaded program is dumped as it is listed; and as long as its bytes stay as they
were loaded, it is traced so. Every instruction that is executed is traced in one line, whether it
fails or not, and nothing else is.
-/
namespace Chip8

namespace Listing.Columns

/-- The first two columns, as they stand in a dump. -/
def dumped (c : Columns) : List Char := c.address ++ ':' :: ' ' :: c.opcode

/-- The columns without the opcode, as they stand in a trace. -/
def traced (c : Columns) : List Char := c.address ++ ':' :: ' ' :: c.instruction

theorem dumped_prefix_line (c : Columns) : c.dumped <+: c.line := by
  refine ⟨List.replicate (6 - c.opcode.length) ' ' ++ c.instruction, ?_⟩
  simp [dumped, line, List.rightpad]

theorem newline_not_mem_dumped {c : Columns} (h : c.Readable) : '\n' ∉ c.dumped := by
  simp [dumped, h.newline_address, h.newline_opcode]

end Listing.Columns

namespace Machine

def columnsAt (m : Machine) (address : Nat) : Listing.Columns :=
  Listing.wordColumns address
    (.ofBytes (m.cpu.memory.read address) (m.cpu.memory.read (address + 1)))

theorem toList_dumpLine (m : Machine) (address : Nat) :
    (m.dumpLine address).toList = Text.ended (m.columnsAt address).dumped := by
  simp [dumpLine, columnsAt, Listing.wordColumns, Listing.Columns.dumped, Text.ended]

theorem lines_dumpMemory (m : Machine) (count : Nat) :
    Text.lines (m.dumpMemory count).toList =
      (List.range ((min count 3584 + 1) / 2)).map fun i =>
        (m.columnsAt (programStart + 2 * i)).dumped := by
  have htext : (m.dumpMemory count).toList =
      ((List.range ((min count 3584 + 1) / 2)).map fun i =>
        (m.columnsAt (programStart + 2 * i)).dumped).flatMap Text.ended := by
    simp [dumpMemory, memorySize, programStart, toList_dumpLine, List.flatMap_map]
  rw [htext]
  refine Text.lines_flatMap_ended (List.forall_mem_map.2 fun i _ => ?_)
  exact Listing.Columns.newline_not_mem_dumped (Listing.readable_wordColumns _ _ _)

theorem columnsAt_eq {m : Machine} {program : List UInt8} {i : Nat}
    (hhigh : program[2 * i]? = some (m.cpu.memory.read (programStart + 2 * i)))
    (hlow : program[2 * i + 1]? = some (m.cpu.memory.read (programStart + 2 * i + 1))) :
    (Listing.rows programStart program)[i]? = some (m.columnsAt (programStart + 2 * i)) := by
  obtain ⟨hlt, hhigh⟩ := List.getElem?_eq_some_iff.1 hhigh
  obtain ⟨hlt', hlow⟩ := List.getElem?_eq_some_iff.1 hlow
  rw [Listing.getElem?_rows_word programStart hlt', hhigh, hlow]
  rfl

theorem read_loadProgram (m : Machine) {program : List UInt8} (hfits : program.length ≤ 3584)
    {i : Nat} (h : i < program.length) :
    program[i]? = some ((m.loadProgram program).cpu.memory.read (programStart + i)) := by
  have hall : program.take 3584 = program := List.take_of_length_le hfits
  have hmemory : (m.loadProgram program).cpu.memory =
      m.cpu.memory.writeAll programStart (program.take 3584) := rfl
  have hend : programStart + program.length ≤ 4096 := by
    change 0x200 + _ ≤ _
    omega
  rw [hmemory, hall, Memory.read_writeAll _ hend (by omega), if_pos (Nat.le_add_right _ _),
    Nat.add_sub_cancel_left, List.getElem?_eq_getElem h, Option.getD_some]

theorem lines_dumpMemory_loadProgram (m : Machine) {program : List UInt8}
    (heven : program.length % 2 = 0) (hfits : program.length ≤ 3584) :
    Text.lines ((m.loadProgram program).dumpMemory program.length).toList =
      (Listing.rows programStart program).map Listing.Columns.dumped := by
  rw [lines_dumpMemory, Nat.min_eq_left hfits]
  apply List.ext_getElem?
  intro i
  rw [List.getElem?_map, List.getElem?_map]
  by_cases h : 2 * i + 1 < program.length
  · have hrow := columnsAt_eq (m.read_loadProgram hfits (Nat.lt_of_succ_lt h))
      (m.read_loadProgram hfits h)
    rw [hrow, List.getElem?_range (by omega)]
    rfl
  · have hrows := Listing.length_rows programStart program
    have hrange : (List.range ((program.length + 1) / 2)).length = (program.length + 1) / 2 :=
      List.length_range
    rw [List.getElem?_eq_none (by omega), List.getElem?_eq_none (by omega)]
    rfl

end Machine

namespace Notice

/-- The lines at the level of traces, the oldest first. -/
def traceLines (notices : List Notice) : List String :=
  (notices.reverse.filter (·.level = .trace)).map text

end Notice

def Execution.line (e : Execution) : String := (Notice.executing e.1 e.2).text

theorem Execution.toList_line (pc : UInt16) (w : Word) :
    (Execution.line (pc, .decode w)).toList = (Listing.wordColumns pc.toNat w).traced := by
  have htext : line (pc, .decode w) =
      Hex.upper 4 pc.toNat ++ ": " ++ (Instruction.decode w).mnemonic := rfl
  simp [htext, Listing.wordColumns, Listing.Columns.traced]

theorem Notice.traceLines_eq (notices : List Notice) :
    traceLines notices = (trace notices).map Execution.line := by
  rw [traceLines, trace]
  induction notices.reverse with
  | nil => rfl
  | cons notice rest ih =>
    cases notice with
    | executing pc i => exact congrArg (Execution.line (pc, i) :: ·) ih
    | _ => exact ih

def Outcome.traceLines {σ α : Type} (o : Outcome σ α) : List String :=
  Notice.traceLines o.notices

theorem Outcome.traceLines_eq {σ α : Type} (o : Outcome σ α) :
    o.traceLines = o.trace.map Execution.line := Notice.traceLines_eq o.notices

namespace Machine

/-- The lines that a session traces. -/
def traceLines (m : Machine) : List Operation → List String
  | [] => []
  | operation :: rest =>
    (m.perform operation).traceLines ++ (m.perform operation).state.traceLines rest

theorem traceLines_eq (m : Machine) (session : List Operation) :
    m.traceLines session = (m.trace session).map Execution.line := by
  induction session generalizing m with
  | nil => rfl
  | cons operation rest ih =>
    rw [traceLines, trace, List.map_append, ih, Outcome.traceLines_eq]

def nextLine (m : Machine) : String := Execution.line (m.cpu.pc, m.nextInstruction)

theorem toList_nextLine (m : Machine) :
    m.nextLine.toList = (m.columnsAt m.cpu.pc.toNat).traced := by
  have hcolumns : m.columnsAt m.cpu.pc.toNat = Listing.wordColumns m.cpu.pc.toNat m.cpu.fetch :=
    rfl
  rw [hcolumns, nextLine, nextInstruction, Execution.toList_line]

end Machine

def Event.moment? : Event → Option Machine
  | .executes m => some m
  | .loads _ => none

def Event.moments (events : List Event) : List Machine := events.filterMap moment?

theorem Event.executions_eq_map_moments (events : List Event) :
    executions events = (moments events).map fun b => (b.cpu.pc, b.nextInstruction) := by
  induction events with
  | nil => rfl
  | cons event rest ih =>
    cases event with
    | executes m => exact congrArg ((m.cpu.pc, m.nextInstruction) :: ·) ih
    | loads program => exact ih

namespace Machine

/-- A session traces its moments, one in a line. -/
theorem traceLines_eq_moments (m : Machine) (session : List Operation) :
    m.traceLines session = (Event.moments (m.events session)).map nextLine := by
  rw [traceLines_eq, (m.course_performAll session).2, Event.executions_eq_map_moments,
    List.map_map]
  rfl

theorem traceLines_step (m : Machine) :
    m.step.traceLines = (Event.moments m.stepEvents).map nextLine := by
  rw [Outcome.traceLines_eq, m.course_step.2, Event.executions_eq_map_moments, List.map_map]
  rfl

theorem traceLines_cycle (m : Machine) :
    m.cycle.traceLines = (Event.moments m.cycleEvents).map nextLine := by
  rw [Outcome.traceLines_eq, m.course_cycle.2, Event.executions_eq_map_moments, List.map_map]
  rfl

theorem traceLines_step_of_running {m : Machine} (h : m.Running) :
    m.step.traceLines = [m.nextLine] := by
  rw [traceLines_step, stepEvents_of_running h]
  rfl

theorem stepEvents_of_not_running {m : Machine} (h : ¬m.Running) : m.stepEvents = [] := by
  cases hf : m.fault with
  | some e => exact stepEvents_of_fault hf
  | none =>
    cases hx : m.awaiting with
    | some x => exact stepEvents_of_awaiting hx
    | none => exact absurd ⟨hf, hx⟩ h

theorem traceLines_step_of_not_running {m : Machine} (h : ¬m.Running) :
    m.step.traceLines = [] := by
  rw [traceLines_step, stepEvents_of_not_running h]
  rfl

theorem traceLines_cycle_of_paid {m : Machine} (h : m.owed = 0) :
    m.cycle.traceLines = m.step.traceLines := by
  rw [traceLines_cycle, traceLines_step, cycleEvents, h, if_neg (Nat.lt_irrefl 0)]

theorem traceLines_cycle_of_owed {m : Machine} (h : 0 < m.owed) : m.cycle.traceLines = [] := by
  rw [traceLines_cycle, cycleEvents, if_pos h]
  rfl

theorem traceLines_cycle_of_not_running {m : Machine} (h : ¬m.Running) :
    m.cycle.traceLines = [] := by
  rw [traceLines_cycle, cycleEvents, stepEvents_of_not_running h, ite_self]
  rfl

/-- A loaded program of whole words is dumped as it is listed, without the instructions. Whatever is
done with it, one line is traced for each instruction that is executed, also if it fails, and none
for a step or cycle that executes none. Where its bytes are those that were loaded, the line is that
of the listing without the opcode. -/
theorem traces_as_listed {program : List UInt8} (heven : program.length % 2 = 0)
    (hfits : program.length ≤ 3584) (settings : Settings) (entropy : Random.Key)
    (generator : Random.Generator) (session : List Operation) :
    let m := (new settings entropy generator).loadProgram program
    let listed := Text.lines (listing program).toList
    let moments := Event.moments (m.events session)
    Text.lines (m.dumpMemory program.length).toList =
      listed.map (fun line => (Listing.Columns.ofLine line).dumped) ∧
    (∀ line ∈ listed, (Listing.Columns.ofLine line).dumped <+: line) ∧
    Course m (m.events session) (m.performAll session) ∧
    m.traceLines session = moments.map nextLine ∧
    (∀ n : Machine,
      (n.Running → n.step.traceLines = [n.nextLine]) ∧
      (¬n.Running → n.step.traceLines = []) ∧
      (n.Running → n.owed = 0 → n.cycle.traceLines = [n.nextLine]) ∧
      (n.awaiting ≠ none ∨ n.fault ≠ none ∨ 0 < n.owed → n.cycle.traceLines = [])) ∧
    (∀ b ∈ moments, ∀ i, b.cpu.pc.toNat = 0x200 + 2 * i →
      program[2 * i]? = some (b.cpu.memory.read (0x200 + 2 * i)) →
      program[2 * i + 1]? = some (b.cpu.memory.read (0x200 + 2 * i + 1)) →
      ∃ line, listed[i]? = some line ∧
        b.nextLine.toList = (Listing.Columns.ofLine line).traced) := by
  intro m listed moments
  have hrows : listed.map Listing.Columns.ofLine = Listing.rows programStart program :=
    columns_listing program
  refine ⟨?_, ?_, (m.course_performAll session).1, m.traceLines_eq_moments session, ?_, ?_⟩
  · rw [lines_dumpMemory_loadProgram _ heven hfits, ← hrows, List.map_map]
    rfl
  · intro line hline
    rw [show listed = _ from lines_listing program] at hline
    obtain ⟨c, hc, rfl⟩ := List.mem_map.1 hline
    rw [Listing.Columns.ofLine_line (Listing.readable_of_mem_rows c hc)]
    exact c.dumped_prefix_line
  · intro n
    refine ⟨traceLines_step_of_running, traceLines_step_of_not_running, ?_, ?_⟩
    · intro hrun howed
      rw [traceLines_cycle_of_paid howed, traceLines_step_of_running hrun]
    · rintro (hx | hf | ho)
      · exact traceLines_cycle_of_not_running fun hrun => hx hrun.awaiting
      · exact traceLines_cycle_of_not_running fun hrun => hf hrun.fault
      · exact traceLines_cycle_of_owed ho
  · intro b _ i hpc hhigh hlow
    have hrow := columnsAt_eq hhigh hlow
    rw [← hrows, List.getElem?_map, Option.map_eq_some_iff] at hrow
    obtain ⟨line, hline, hcolumns⟩ := hrow
    refine ⟨line, hline, ?_⟩
    rw [toList_nextLine, hpc, hcolumns]
    rfl

/-- A return that fails is traced as it is listed. -/
theorem traces_as_listed_of_fault :
    let program : List UInt8 := [0x00, 0xE0, 0x00, 0xEE]
    let session : List Operation := [.update 1000000000]
    let m := (new {} 0).loadProgram program
    listing program = "0200: 00E0  CLS\n0202: 00EE  RET\n" ∧
    Text.lines (m.dumpMemory 4).toList = ["0200: 00E0".toList, "0202: 00EE".toList] ∧
    (m.performAll session).fault = some (.stackUnderflow 0x202) ∧
    (m.traceLines session).getLast?.map String.toList = some "0202: RET".toList := by
  intro program session m
  have heven : program.length % 2 = 0 := by decide
  have hfits : program.length ≤ 3584 := by decide
  obtain ⟨hdump, -, -, htrace, -, hline⟩ := traces_as_listed heven hfits {} 0 .chaCha session
  have hlast : ∃ b, (Event.moments (m.events session)).getLast? = some b ∧ b.cpu.pc = 0x202 ∧
      b.cpu.memory.read 0x202 = 0x00 ∧ b.cpu.memory.read 0x203 = 0xEE := by
    have hread : (Event.moments (m.events session)).getLast?.map (fun b =>
        (b.cpu.pc, b.cpu.memory.read 0x202, b.cpu.memory.read 0x203)) =
          some (0x202, 0x00, 0xEE) := by decide +kernel
    obtain ⟨b, hb, hread⟩ := Option.map_eq_some_iff.1 hread
    simp only [Prod.mk.injEq] at hread
    exact ⟨b, hb, hread⟩
  obtain ⟨b, hb, hpc, hhigh, hlow⟩ := hlast
  obtain ⟨line, hlisted, hwritten⟩ := hline b (List.mem_of_getLast? hb) 1
    (congrArg UInt16.toNat hpc) (congrArg some hhigh.symm) (congrArg some hlow.symm)
  refine ⟨by decide, hdump.trans (by decide), by decide +kernel, ?_⟩
  have hsecond : (Text.lines (listing program).toList)[1]? = some "0202: 00EE  RET".toList := by
    decide
  cases hlisted.symm.trans hsecond
  rw [htrace, List.getLast?_map, hb]
  exact congrArg some (hwritten.trans (by decide))

end Machine
end Chip8
