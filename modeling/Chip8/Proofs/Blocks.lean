import Chip8.Proofs.DrawOrder
import Chip8.Proofs.Events
import Chip8.Proofs.Scrolling

/-! # Pictures in blocks

Low resolution draws whole blocks of two by two pixels, and scrolling moves whole blocks: sideways
always, down by an even number of rows. So as long as a program does not draw in high resolution,
nor scroll down by an odd number of rows, its picture consists of blocks, whatever else it does, and
is the same picture in both resolutions.
-/
namespace Chip8

namespace Screen

/-- The four physical pixels of every low resolution pixel are equal. -/
def Blocks (s : Screen) : Prop :=
  ∀ X < 64, ∀ Y < 32, ∀ i < 2, ∀ j < 2,
    s.physical (2 * X + i) (2 * Y + j) = s.physical (2 * X) (2 * Y)

/-- The pixel of the low resolution picture, in whatever resolution the screen is. -/
def lowPixel (s : Screen) (X Y : Nat) : Bool := (s.setHires false).pixel X Y

def highPixel (s : Screen) (x y : Nat) : Bool := (s.setHires true).pixel x y

theorem lowPixel_eq (s : Screen) (X Y : Nat) : s.lowPixel X Y = s.physical (2 * X) (2 * Y) := rfl

theorem highPixel_eq (s : Screen) (x y : Nat) : s.highPixel x y = s.physical x y := rfl

theorem blocks_blank : blank.Blocks := by
  intro X _ Y _ i _ j _
  rw [physical_blank, physical_blank]

theorem blocks_clear (s : Screen) : s.clear.Blocks := by
  intro X _ Y _ i _ j _
  rw [physical_clear, physical_clear]

namespace Blocks
variable {s : Screen}

theorem setHires (h : s.Blocks) (on : Bool) : (s.setHires on).Blocks := h

theorem drawLow (h : s.Blocks) (x y : Nat) (sprite : List UInt8) :
    (s.drawLow x y sprite).screen.Blocks := by
  intro X hX Y hY i hi j hj
  have hcovers : (blockCovers · (2 * X + i) (2 * Y + j)) = (blockCovers · (2 * X) (2 * Y)) := by
    funext cell
    have hX' : (2 * X + i) / 2 = 2 * X / 2 := by omega
    have hY' : (2 * Y + j) / 2 = 2 * Y / 2 := by omega
    simp only [blockCovers, hX', hY']
  have hflip := plots_plotLow.physical_foldl_bodd (lowCells (x % 64) (y % 32) sprite) s 0
  refine (hflip (2 * X + i) (2 * Y + j)).trans (Eq.trans ?_ (hflip (2 * X) (2 * Y)).symm)
  rw [h X hX Y hY i hi j hj, hcovers]

theorem plane (h : s.Blocks) (x y : Int) : s.plane x y = s.plane (2 * (x / 2)) (2 * (y / 2)) := by
  by_cases hin : InGrid x y
  · obtain ⟨hx, hx', hy, hy'⟩ := hin
    lift x to Nat using hx
    lift y to Nat using hy
    have hX : 2 * ((x : Int) / 2) = (2 * (x / 2) : Nat) := by omega
    have hY : 2 * ((y : Int) / 2) = (2 * (y / 2) : Nat) := by omega
    have hblock := h (x / 2) (by omega) (y / 2) (by omega) (x % 2) (by omega) (y % 2) (by omega)
    rw [Nat.div_add_mod, Nat.div_add_mod] at hblock
    rw [hX, hY, plane_ofNat (by omega) (by omega), plane_ofNat (by omega) (by omega), hblock]
  · have hblock : ¬InGrid (2 * (x / 2)) (2 * (y / 2)) := by
      unfold InGrid at *
      omega
    rw [plane_of_not_inGrid hin, plane_of_not_inGrid hblock]

/-- Moves by whole blocks keep a picture in blocks. -/
theorem moved {t : Screen} (h : s.Blocks) (dx dy : Int) (hmoved : MovedBy (2 * dx) (2 * dy) s t) :
    t.Blocks := by
  intro X hX Y hY i hi j hj
  have hx : ((2 * X + i : Nat) - 2 * dx) / 2 = ((2 * X : Nat) - 2 * dx) / 2 := by omega
  have hy : ((2 * Y + j : Nat) - 2 * dy) / 2 = ((2 * Y : Nat) - 2 * dy) / 2 := by omega
  rw [hmoved.physical (by omega) (by omega), hmoved.physical (by omega) (by omega), h.plane, hx, hy,
    ← h.plane]

theorem scrollDown (h : s.Blocks) {rows : Nat} (heven : rows % 2 = 0) :
    (s.scrollDown rows).Blocks := by
  have hmoved := s.movedBy_scrollDown rows
  have hrows : (rows : Int) = 2 * (rows / 2) := by omega
  rw [hrows] at hmoved
  exact h.moved 0 _ hmoved

theorem scrollRight (h : s.Blocks) : s.scrollRight.Blocks := h.moved 2 0 s.movedBy_scrollRight

theorem scrollLeft (h : s.Blocks) : s.scrollLeft.Blocks := by
  have hcolumns : (-4 : Int) = 2 * -2 := by decide
  have hmoved := s.movedBy_scrollLeft
  rw [hcolumns] at hmoved
  exact h.moved (-2) 0 hmoved

/-- The high resolution picture is the low resolution picture with every pixel doubled. -/
theorem highPixel_eq (h : s.Blocks) {x y : Nat} (hx : x < 128) (hy : y < 64) :
    s.highPixel x y = s.lowPixel (x / 2) (y / 2) := by
  have hblock := h (x / 2) (by omega) (y / 2) (by omega) (x % 2) (by omega) (y % 2) (by omega)
  rw [Nat.div_add_mod, Nat.div_add_mod] at hblock
  rw [s.highPixel_eq, s.lowPixel_eq]
  exact hblock

end Blocks

theorem lowPixel_scrollDown (s : Screen) {rows : Nat} (heven : rows % 2 = 0) (X : Nat) {Y : Nat}
    (hY : Y < 32) :
    (s.scrollDown rows).lowPixel X Y =
      if rows / 2 ≤ Y then s.lowPixel X (Y - rows / 2) else false := by
  have hsource : 2 * Y - rows = 2 * (Y - rows / 2) := by omega
  have hrows : rows ≤ 2 * Y ↔ rows / 2 ≤ Y := by omega
  rw [lowPixel_eq, physical_scrollDown s rows _ _ (by omega), hsource]
  simp only [hrows, lowPixel_eq]

theorem lowPixel_scrollRight (s : Screen) {X : Nat} (hX : X < 64) (Y : Nat) :
    s.scrollRight.lowPixel X Y = if 2 ≤ X then s.lowPixel (X - 2) Y else false := by
  have hsource : 2 * X - 4 = 2 * (X - 2) := by omega
  have hcolumns : 4 ≤ 2 * X ↔ 2 ≤ X := by omega
  rw [lowPixel_eq, physical_scrollRight s _ _ (by omega), hsource]
  simp only [hcolumns, lowPixel_eq]

theorem lowPixel_scrollLeft (s : Screen) {X : Nat} (hX : X < 64) (Y : Nat) :
    s.scrollLeft.lowPixel X Y = if X < 62 then s.lowPixel (X + 2) Y else false := by
  have hsource : 2 * X + 4 = 2 * (X + 2) := by omega
  have hcolumns : 2 * X < 124 ↔ X < 62 := by omega
  rw [lowPixel_eq, physical_scrollLeft s _ _ (by omega), hsource]
  simp only [hcolumns, lowPixel_eq]

end Screen

/-- Instructions that keep a picture in blocks: all but draws in high resolution, and scrolls down
by an odd number of rows. -/
def Instruction.keepsBlocks (hires : Bool) : Instruction → Bool
  | .draw .. => !hires
  | .scrollDown rows => rows.val % 2 == 0
  | _ => true

def Event.keepsBlocks : Event → Bool
  | .executes m => m.nextInstruction.keepsBlocks m.screen.hires
  | .loads _ => true

namespace Machine

def screenAfter (m : Machine) : Instruction → Screen
  | .clearScreen => m.screen.clear
  | .lowResolution => m.screen.setHires false
  | .highResolution => m.screen.setHires true
  | .scrollDown rows => m.screen.scrollDown rows
  | .scrollRight => m.screen.scrollRight
  | .scrollLeft => m.screen.scrollLeft
  | .draw x y rows => (m.drawing x y rows).screen
  | _ => m.screen

theorem screen_execute (m : Machine) (pc : UInt16) (i : Instruction) :
    (m.execute pc i).machine.screen = m.screenAfter i := by
  cases i with
  | ret =>
    simp only [execute]
    split <;> rfl
  | call address =>
    simp only [execute]
    split <;> rfl
  | _ => rfl

theorem screen_executeNext (m : Machine) :
    m.executeNext.state.screen = m.screenAfter m.nextInstruction := by
  have hscreen := (m.mapCpu Cpu.advance).screen_execute m.cpu.pc m.nextInstruction
  have hsame : (m.mapCpu Cpu.advance).screenAfter m.nextInstruction =
      m.screenAfter m.nextInstruction := by
    cases m.nextInstruction <;> rfl
  rw [hsame] at hscreen
  cases hr : m.nextEffect.result with
  | error e =>
    have hnothing : m.nextEffect.machine = m.mapCpu Cpu.advance := execute_of_error hr
    rw [(executeNext_of_error hr).2]
    exact (congrArg Machine.screen hnothing).symm.trans hscreen
  | ok p =>
    rw [(executeNext_of_ok hr).2]
    exact hscreen

theorem blocks_executeNext {m : Machine} (hm : m.screen.Blocks)
    (h : (Event.executes m).keepsBlocks = true) : m.executeNext.state.screen.Blocks := by
  rw [screen_executeNext]
  rw [Event.keepsBlocks] at h
  cases hi : m.nextInstruction with
  | clearScreen => exact m.screen.blocks_clear
  | lowResolution => exact hm.setHires false
  | highResolution => exact hm.setHires true
  | scrollDown rows =>
    rw [hi] at h
    exact hm.scrollDown (beq_iff_eq.1 h)
  | scrollRight => exact hm.scrollRight
  | scrollLeft => exact hm.scrollLeft
  | draw x y rows =>
    rw [hi] at h
    have hlow : m.screen.hires = false := by
      rw [← Bool.not_eq_true']
      exact h
    rw [screenAfter, drawing_low hlow]
    exact hm.drawLow _ _ _
  | _ => exact hm

theorem screen_aside {m n : Machine} (h : Aside m n) : n.screen = m.screen := by
  cases h with
  | press key => rw [pressKey_frame]
  | _ => rfl

theorem Course.blocks {m n : Machine} {events : List Event} (h : Course m events n)
    (hevents : ∀ event ∈ events, event.keepsBlocks = true) (hm : m.screen.Blocks) :
    n.screen.Blocks := by
  induction h with
  | refl m => exact hm
  | executes hrun _ ih =>
    obtain ⟨hfirst, hrest⟩ := List.forall_mem_cons.1 hevents
    exact ih hrest (blocks_executeNext hm hfirst)
  | loads program _ ih =>
    obtain ⟨-, hrest⟩ := List.forall_mem_cons.1 hevents
    exact ih hrest hm
  | aside ha _ ih =>
    apply ih hevents
    rw [screen_aside ha]
    exact hm

theorem Course.blocks_of_mem {m n b : Machine} {events : List Event} (h : Course m events n)
    (hevents : ∀ event ∈ events, event.keepsBlocks = true) (hm : m.screen.Blocks)
    (hb : Event.executes b ∈ events) : b.screen.Blocks := by
  obtain ⟨before, after, rfl⟩ := List.append_of_mem hb
  obtain ⟨hbefore, -, -⟩ := h.split
  apply hbefore.blocks _ hm
  intro event hevent
  exact hevents event (List.mem_append_left _ hevent)

/-- In a session that draws nothing in high resolution and never scrolls down by an odd number of
rows, the picture is made of blocks of two by two pixels all along: after the session, and before
and after each instruction in it. So in high resolution it is the low resolution picture with each
pixel doubled, and the scrolls move the low resolution picture: down by half as many rows as they
say, and sideways by two columns. -/
theorem pictures_stay_in_blocks (settings : Settings) (entropy : Random.Key)
    (generator : Random.Generator) (session : List Operation)
    (h : ∀ event ∈ (new settings entropy generator).events session, event.keepsBlocks = true) :
    let m := new settings entropy generator
    let inBlocks (s : Screen) := s.Blocks ∧
      ∀ x < 128, ∀ y < 64, s.highPixel x y = s.lowPixel (x / 2) (y / 2)
    Event.executions (m.events session) = m.trace session ∧
    inBlocks (m.performAll session).screen ∧
    ∀ b, Event.executes b ∈ m.events session →
      let after := b.executeNext.state.screen
      inBlocks b.screen ∧ inBlocks after ∧
      (∀ rows, b.nextInstruction = .scrollDown rows → ∀ X < 64, ∀ Y < 32, after.lowPixel X Y =
        if rows.val / 2 ≤ Y then b.screen.lowPixel X (Y - rows.val / 2) else false) ∧
      (b.nextInstruction = .scrollRight → ∀ X < 64, ∀ Y < 32,
        after.lowPixel X Y = if 2 ≤ X then b.screen.lowPixel (X - 2) Y else false) ∧
      (b.nextInstruction = .scrollLeft → ∀ X < 64, ∀ Y < 32,
        after.lowPixel X Y = if X < 62 then b.screen.lowPixel (X + 2) Y else false) := by
  intro m inBlocks
  have hin {s : Screen} (hs : s.Blocks) : inBlocks s := by
    refine ⟨hs, ?_⟩
    intro x hx y hy
    exact hs.highPixel_eq hx hy
  obtain ⟨hcourse, htrace⟩ := m.course_performAll session
  have hblank : m.screen.Blocks := Screen.blocks_blank
  refine ⟨htrace.symm, hin (hcourse.blocks h hblank), ?_⟩
  intro b hb after
  have hafter : after = b.screenAfter b.nextInstruction := b.screen_executeNext
  have hbefore := hcourse.blocks_of_mem h hblank hb
  refine ⟨hin hbefore, hin (blocks_executeNext hbefore (h _ hb)), ?_, ?_, ?_⟩
  · intro rows hi X _ Y hY
    have heven := h _ hb
    rw [Event.keepsBlocks, hi] at heven
    rw [hafter, hi]
    exact b.screen.lowPixel_scrollDown (beq_iff_eq.1 heven) X hY
  · intro hi X hX Y _
    rw [hafter, hi]
    exact b.screen.lowPixel_scrollRight hX Y
  · intro hi X hX Y _
    rw [hafter, hi]
    exact b.screen.lowPixel_scrollLeft hX Y

/-- The top of a digit that was drawn in low resolution is scrolled down by two rows in high
resolution: it comes one low resolution pixel further down, and its corner is four pixels as
before. -/
theorem pictures_stay_in_blocks_of_switch :
    let start := [.loadProgram [0x60, 0x05, 0xA0, 0x50, 0xD0, 0x01, 0x00, 0xFF, 0x00, 0xC2],
      .runSteps 4]
    let b := (new {} 0).performAll start
    let after := b.executeNext.state.screen
    (∀ event ∈ (new {} 0).events (start ++ [.step]), event.keepsBlocks = true) ∧
      b.screen.hires = true ∧ b.nextInstruction = .scrollDown 2 ∧
      b.screen.lowPixel 5 5 = true ∧ after.lowPixel 5 6 = true ∧ after.highPixel 11 13 = true := by
  intro start b after
  have hstart : (∀ event ∈ (new {} 0).events (start ++ [.step]), event.keepsBlocks = true) ∧
      b.fault = none ∧ b.awaiting = none ∧ b.screen.hires = true ∧
      b.nextInstruction = .scrollDown 2 ∧ b.screen.lowPixel 5 5 = true := by
    decide +kernel
  obtain ⟨hkept, hf, hx, hhires, hi, hcorner⟩ := hstart
  have hmem : Event.executes b ∈ (new {} 0).events (start ++ [.step]) := by
    rw [events_append]
    apply List.mem_append_right
    have hstep : b.stepEvents = [.executes b] := stepEvents_of_running ⟨hf, hx⟩
    simp [events, eventsOf, hstep, b]
  obtain ⟨-, -, hmoments⟩ := pictures_stay_in_blocks {} 0 .chaCha (start ++ [.step]) hkept
  obtain ⟨-, ⟨-, hdoubled⟩, hdown, -, -⟩ := hmoments b hmem
  have hmoved : after.lowPixel 5 6 = true := by
    have hrows : (2 : Nibble).val / 2 = 1 := by decide
    have hpixel := hdown 2 hi 5 (by decide) 6 (by decide)
    rw [hrows, if_pos (by decide)] at hpixel
    exact hpixel.trans hcorner
  exact ⟨hkept, hhires, hi, hcorner, hmoved,
    (hdoubled 11 (by decide) 13 (by decide)).trans hmoved⟩

end Machine
end Chip8
