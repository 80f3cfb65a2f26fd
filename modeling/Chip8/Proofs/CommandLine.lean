import Chip8.CommandLine.Command
import Chip8.Proofs.Text.Numerals
import Mathlib.Data.List.Basic
import Mathlib.Logic.Function.Iterate

/-! # The grammar of the command line

A command is spelled by its name and the arguments that it takes, a run also by groups of one or two
arguments, each of which makes an option. Reading accepts exactly the arguments that spell a
command, and of the groups of one kind the last counts. Options are read one group at a time, and
every group takes arguments away, so that reading ends.
-/
namespace Chip8

theorem Command.readSeconds?_eq_some_iff {text : String} {n : UInt64} :
    readSeconds? text = some n ↔ Text.Writes text.toList n.toNat := by
  rw [readSeconds?, Option.map_eq_some_iff]
  constructor
  · rintro ⟨k, hk, rfl⟩
    obtain ⟨hwrites, hlt⟩ := Text.natBelow?_eq_some_iff.1 hk
    rwa [UInt64.toNat_ofNat_of_lt' hlt]
  · intro h
    exact ⟨n.toNat, Text.natBelow?_eq_some_iff.2 ⟨h, n.toNat_lt⟩, UInt64.ofNat_toNat⟩

inductive OptionKind
  | preferences | script | timing | seconds | realtime
deriving DecidableEq

/-- What an option of a kind is given. -/
abbrev OptionKind.Value : OptionKind → Type
  | seconds => UInt64
  | realtime => Bool
  | _ => String

/-- The arguments of one option. -/
inductive OptionGroup
  | preferences (path : String)
  | script (path : String)
  | timing (name : String)
  | seconds (text : String) (count : UInt64) (h : Text.Writes text.toList count.toNat)
  | realtime

namespace OptionGroup

def kind : OptionGroup → OptionKind
  | preferences _ => .preferences
  | script _ => .script
  | timing _ => .timing
  | seconds .. => .seconds
  | realtime => .realtime

def arguments : OptionGroup → List String
  | preferences path => ["--config", path]
  | script path => ["--script", path]
  | timing name => ["--timing", name]
  | seconds text _ _ => ["--seconds", text]
  | realtime => ["--realtime"]

def apply (o : RunOptions) : OptionGroup → RunOptions
  | preferences path => { o with preferences := path }
  | script path => { o with script := some path }
  | timing name => { o with timing := some name }
  | seconds _ count _ => { o with seconds := count }
  | realtime => { o with realtime := true }

theorem length_arguments_pos (g : OptionGroup) : 0 < g.arguments.length := by
  cases g <;> exact Nat.zero_lt_succ _

/-- The group at the front of some arguments, and the arguments behind it. -/
def take? : List String → Option (OptionGroup × List String)
  | "--config" :: path :: rest => some (preferences path, rest)
  | "--script" :: path :: rest => some (script path, rest)
  | "--timing" :: name :: rest => some (timing name, rest)
  | "--seconds" :: text :: rest =>
    match h : Command.readSeconds? text with
    | some count => some (seconds text count (Command.readSeconds?_eq_some_iff.1 h), rest)
    | none => none
  | "--realtime" :: rest => some (realtime, rest)
  | _ => none

theorem take?_arguments_append (g : OptionGroup) (rest : List String) :
    take? (g.arguments ++ rest) = some (g, rest) := by
  cases g with
  | seconds text count h =>
    have hread := Command.readSeconds?_eq_some_iff.2 h
    simp only [arguments, List.cons_append, List.nil_append, take?]
    split
    · rename_i c hc
      cases hread.symm.trans hc
      rfl
    · rename_i hc
      cases hread.symm.trans hc
  | _ => rfl

theorem eq_of_take? {args rest : List String} {g : OptionGroup} (h : take? args = some (g, rest)) :
    args = g.arguments ++ rest := by
  unfold take? at h
  split at h
  case h_4 =>
    split at h
    · cases h
      rfl
    · cases h
  all_goals
    cases h
    try rfl

theorem readOptions?_arguments_append (o : RunOptions) (g : OptionGroup) (rest : List String) :
    Command.readOptions? o (g.arguments ++ rest) = Command.readOptions? (g.apply o) rest := by
  cases g with
  | seconds text count h =>
    have hread := Command.readSeconds?_eq_some_iff.2 h
    simp only [arguments, List.cons_append, List.nil_append, Command.readOptions?, hread, apply]
  | _ => rfl

theorem readOptions?_of_take?_none (o : RunOptions) {args : List String} (hne : args ≠ [])
    (h : take? args = none) : Command.readOptions? o args = none := by
  fun_cases Command.readOptions? o args with
  | case1 => exact absurd rfl hne
  | case5 text rest count hread =>
    have htaken := take?_arguments_append
      (.seconds text count (Command.readSeconds?_eq_some_iff.1 hread)) rest
    cases h.symm.trans htaken
  | case6 => rfl
  | case8 => rfl
  | _ => cases h

theorem readOptions?_flatMap (o : RunOptions) (groups : List OptionGroup) :
    Command.readOptions? o (groups.flatMap arguments) = some (groups.foldl apply o) := by
  induction groups generalizing o with
  | nil => rfl
  | cons g groups ih => rw [List.flatMap_cons, readOptions?_arguments_append, ih, List.foldl_cons]

/-- Nothing but groups is read. -/
theorem exists_groups {o p : RunOptions} {args : List String}
    (h : Command.readOptions? o args = some p) :
    ∃ groups : List OptionGroup, args = groups.flatMap arguments ∧ groups.foldl apply o = p := by
  by_cases hne : args = []
  · subst hne
    cases h
    exact ⟨[], rfl, rfl⟩
  · cases htaken : take? args with
    | none => cases (readOptions?_of_take?_none o hne htaken).symm.trans h
    | some taken =>
      obtain ⟨g, rest⟩ := taken
      have hsplit := eq_of_take? htaken
      have hshorter := g.length_arguments_pos
      rw [hsplit, readOptions?_arguments_append] at h
      obtain ⟨groups, hgroups, hp⟩ := exists_groups h
      exact ⟨g :: groups, by rw [List.flatMap_cons, ← hgroups, hsplit], hp⟩
termination_by args.length
decreasing_by
  rw [hsplit, List.length_append]
  omega

def value? : (k : OptionKind) → OptionGroup → Option k.Value
  | .preferences, preferences path => some path
  | .script, script path => some path
  | .timing, timing name => some name
  | .seconds, seconds _ count _ => some count
  | .realtime, realtime => some true
  | _, _ => none

def last? (k : OptionKind) (groups : List OptionGroup) : Option k.Value :=
  (groups.filterMap (value? k)).getLast?

/-- A field into which each group puts its value, if it has one, ends with the last of these. -/
theorem foldl_apply_field (k : OptionKind) (field : RunOptions → Option k.Value)
    (h : ∀ o g, field (apply o g) = (value? k g).or (field o)) (o : RunOptions)
    (groups : List OptionGroup) :
    field (groups.foldl apply o) = (last? k groups).or (field o) := by
  induction groups generalizing o with
  | nil => rfl
  | cons g groups ih =>
    rw [List.foldl_cons, ih, h]
    cases hvalue : value? k g with
    | none => rw [last?, last?, List.filterMap_cons_none hvalue, Option.none_or]
    | some v =>
      rw [last?, last?, List.filterMap_cons_some hvalue, List.getLast?_cons]
      cases (groups.filterMap (value? k)).getLast? <;> rfl

/-- The same groups, those of each kind in the same order. -/
def SameByKind (groups groups' : List OptionGroup) : Prop :=
  ∀ k : OptionKind, groups.filter (·.kind = k) = groups'.filter (·.kind = k)

theorem value?_of_kind_ne {k : OptionKind} {g : OptionGroup} (h : g.kind ≠ k) :
    value? k g = none := by
  cases k <;> cases g <;> first | rfl | exact absurd rfl h

theorem SameByKind.last?_eq {groups groups' : List OptionGroup} (h : SameByKind groups groups')
    (k : OptionKind) : last? k groups = last? k groups' := by
  have hfilter (groups : List OptionGroup) :
      groups.filterMap (value? k) = (groups.filter (·.kind = k)).filterMap (value? k) := by
    rw [List.filterMap_filter]
    apply List.filterMap_congr
    intro g _
    by_cases hk : g.kind = k
    · simp [hk]
    · simp [hk, value?_of_kind_ne hk]
  rw [last?, last?, hfilter, h k, ← hfilter]

end OptionGroup

open OptionGroup in
/-- The options of a run with some groups: each comes from the last group of its kind, if there is
one. -/
def RunOptions.ofGroups (rom : String) (groups : List OptionGroup) : RunOptions where
  rom
  preferences := (last? .preferences groups).getD "schip.yaml"
  script := last? .script groups
  timing := last? .timing groups
  seconds := (last? .seconds groups).getD 10
  realtime := (last? .realtime groups).getD false

namespace OptionGroup

theorem SameByKind.ofGroups_eq {groups groups' : List OptionGroup} (h : SameByKind groups groups')
    (rom : String) : RunOptions.ofGroups rom groups = RunOptions.ofGroups rom groups' := by
  simp only [RunOptions.ofGroups, h.last?_eq]

theorem rom_foldl_apply (o : RunOptions) (groups : List OptionGroup) :
    (groups.foldl apply o).rom = o.rom := by
  induction groups generalizing o with
  | nil => rfl
  | cons g groups ih =>
    rw [List.foldl_cons, ih]
    cases g <;> rfl

theorem foldl_apply_eq_ofGroups (rom : String) (groups : List OptionGroup) :
    groups.foldl apply { rom } = RunOptions.ofGroups rom groups := by
  have hrom := rom_foldl_apply { rom } groups
  have hpreferences := foldl_apply_field .preferences (some ·.preferences)
    (fun _ g => by cases g <;> rfl) { rom } groups
  have hscript := foldl_apply_field .script (·.script)
    (fun _ g => by cases g <;> rfl) { rom } groups
  have htiming := foldl_apply_field .timing (·.timing)
    (fun _ g => by cases g <;> rfl) { rom } groups
  have hseconds := foldl_apply_field .seconds (some ·.seconds)
    (fun _ g => by cases g <;> rfl) { rom } groups
  have hrealtime := foldl_apply_field .realtime (some ·.realtime)
    (fun _ g => by cases g <;> rfl) { rom } groups
  rw [Option.or_some, Option.some_inj] at hpreferences hseconds hrealtime
  rw [Option.or_none] at hscript htiming
  have heta (o : RunOptions) :
      o = ⟨o.rom, o.preferences, o.script, o.timing, o.seconds, o.realtime⟩ := rfl
  rw [heta (groups.foldl apply { rom }), hrom, hpreferences, hscript, htiming, hseconds, hrealtime]
  rfl

end OptionGroup

/-- How far the reading of options has come. -/
inductive Reading
  | reading (o : RunOptions) (rest : List String)
  | ended (result : Option RunOptions)

namespace Reading

def turn : Reading → Reading
  | reading o [] => ended (some o)
  | reading o (arg :: more) =>
    match OptionGroup.take? (arg :: more) with
    | some (g, rest) => reading (g.apply o) rest
    | none => ended none
  | ended result => ended result

theorem iterate_turn_ended (result : Option RunOptions) (turns : Nat) :
    turn^[turns] (ended result) = ended result :=
  Function.iterate_fixed rfl turns

/-- Reading ends, after as many turns as there are arguments and one. -/
theorem iterate_turn_reading {args : List String} {turns : Nat} (h : args.length < turns)
    (o : RunOptions) :
    turn^[turns] (reading o args) = ended (Command.readOptions? o args) := by
  induction turns generalizing args o with
  | zero => cases h
  | succ turns ih =>
    rw [Function.iterate_succ_apply]
    cases args with
    | nil => exact iterate_turn_ended (some o) turns
    | cons arg more =>
      cases htaken : OptionGroup.take? (arg :: more) with
      | none =>
        have hnext : turn (reading o (arg :: more)) = ended none := by rw [turn, htaken]
        rw [hnext, iterate_turn_ended,
          OptionGroup.readOptions?_of_take?_none o (List.cons_ne_nil arg more) htaken]
      | some taken =>
        obtain ⟨g, rest⟩ := taken
        have hnext : turn (reading o (arg :: more)) = reading (g.apply o) rest := by
          rw [turn, htaken]
        have hsplit := OptionGroup.eq_of_take? htaken
        have hshorter : rest.length < turns := by
          have hlength := congrArg List.length hsplit
          have hpos := g.length_arguments_pos
          rw [List.length_append] at hlength
          omega
        rw [hnext, ih hshorter, hsplit, OptionGroup.readOptions?_arguments_append]

end Reading

namespace Command

/-- The arguments that spell a command. More than `dis` and `config` take may stand behind. -/
inductive SpelledBy : Command → List String → Prop
  | run (rom : String) (groups : List OptionGroup) :
    SpelledBy (.run (.ofGroups rom groups)) ("run" :: rom :: groups.flatMap OptionGroup.arguments)
  | list (path : String) (more : List String) : SpelledBy (.list path) ("dis" :: path :: more)
  | preferences (more : List String) :
    SpelledBy (.preferences (more.head?.getD "schip.yaml")) ("config" :: more)

theorem read?_run (rom : String) (groups : List OptionGroup) :
    read? ("run" :: rom :: groups.flatMap OptionGroup.arguments) =
      some (.run (.ofGroups rom groups)) := by
  rw [read?, OptionGroup.readOptions?_flatMap, OptionGroup.foldl_apply_eq_ofGroups, Option.map_some]

theorem read?_eq_some_iff {args : List String} {c : Command} :
    read? args = some c ↔ c.SpelledBy args := by
  constructor
  · fun_cases read? args with
    | case1 rom more =>
      intro h
      obtain ⟨o, ho, rfl⟩ := Option.map_eq_some_iff.1 h
      obtain ⟨groups, rfl, rfl⟩ := OptionGroup.exists_groups ho
      rw [OptionGroup.foldl_apply_eq_ofGroups]
      exact .run rom groups
    | case2 path more =>
      rintro ⟨⟩
      exact .list path more
    | case3 =>
      rintro ⟨⟩
      exact .preferences []
    | case4 path more =>
      rintro ⟨⟩
      exact .preferences (path :: more)
    | case5 => exact nofun
  · rintro (⟨rom, groups⟩ | ⟨path, more⟩ | ⟨more⟩)
    · exact read?_run rom groups
    · rfl
    · cases more <;> rfl

/-- Arguments are read as a command exactly if they spell it, and as none if they spell none: a run
takes groups of arguments, of which the last of each kind counts. So groups of different kinds may
change places. Reading the options of a run ends on all arguments: each turn but the last takes
some of them. -/
theorem arguments_spell_commands :
    (∀ args c, read? args = some c ↔ SpelledBy c args) ∧
    (∀ args, read? args = none ↔ ∀ c, ¬SpelledBy c args) ∧
    (∀ rom groups groups', OptionGroup.SameByKind groups groups' →
      read? ("run" :: rom :: groups.flatMap OptionGroup.arguments) =
        read? ("run" :: rom :: groups'.flatMap OptionGroup.arguments)) ∧
    ∀ o args turns, args.length < turns →
      Reading.turn^[turns] (.reading o args) = .ended (readOptions? o args) := by
  refine ⟨fun args c => read?_eq_some_iff, ?_, ?_, fun o args turns h => ?_⟩
  · intro args
    rw [Option.eq_none_iff_forall_ne_some]
    exact forall_congr' fun c => not_congr read?_eq_some_iff
  · intro rom groups groups' h
    rw [read?_run, read?_run, h.ofGroups_eq rom]
  · exact Reading.iterate_turn_reading h o

/-- An option is taken as a value, a numeral has a sign, and one path is given twice; then the
groups change places. A value that is missing spells nothing. -/
theorem arguments_spell_commands_of_repeated :
    let count : Text.Writes "+05".toList (5 : UInt64).toNat :=
      readSeconds?_eq_some_iff.1 (by decide)
    let groups : List OptionGroup :=
      [.preferences "--script", .seconds "+05" 5 count, .realtime, .preferences "b.yaml"]
    let groups' : List OptionGroup :=
      [.realtime, .preferences "--script", .preferences "b.yaml", .seconds "+05" 5 count]
    let o : RunOptions :=
      { rom := "a.rom", preferences := "b.yaml", seconds := 5, realtime := true }
    OptionGroup.SameByKind groups groups' ∧
    SpelledBy (.run o) ("run" :: "a.rom" :: groups.flatMap OptionGroup.arguments) ∧
    read? ["run", "a.rom", "--config", "--script", "--seconds", "+05", "--realtime", "--config",
      "b.yaml"] = some (.run o) ∧
    read? ["run", "a.rom", "--realtime", "--config", "--script", "--config", "b.yaml", "--seconds",
      "+05"] = some (.run o) ∧
    (∀ c, ¬SpelledBy c ["run", "a.rom", "--seconds", "5", "--script"]) ∧
    Reading.turn^[4] (.reading { rom := "a.rom" } ["--seconds", "5", "--script"]) =
      .ended none := by
  intro count groups groups' o
  obtain ⟨hread, hnone, hplaces, hends⟩ := arguments_spell_commands
  have hsame : OptionGroup.SameByKind groups groups' := by
    intro k
    cases k <;> rfl
  have hspelled : SpelledBy (.run o) ("run" :: "a.rom" :: groups.flatMap OptionGroup.arguments) :=
    .run "a.rom" groups
  have hrun := (hread _ _).2 hspelled
  have hmissing : read? ["run", "a.rom", "--seconds", "5", "--script"] = none := by decide
  exact ⟨hsame, hspelled, hrun, (hplaces "a.rom" groups groups' hsame).symm.trans hrun,
    (hnone _).1 hmissing, hends _ _ 4 (by decide)⟩

end Command
end Chip8
