import Mathlib.Data.List.TakeWhile
import ScriptLexer.Command.Run

-- What is done about the arguments, told without reading them from left to right: which of
-- them stand before the first `--`, and for a refusal what stands before the one refused.
namespace ScriptLexer

def HelpIn (arguments : List String) : Prop := "help" ∈ arguments ∨ "--help" ∈ arguments

def VersionIn (arguments : List String) : Prop := "-v" ∈ arguments ∨ "--version" ∈ arguments

structure Refused (before : List String) (argument : String) : Prop where
  option : argument.toList.head? = some '-'
  notHelp : argument ≠ "--help"
  unfit : HelpIn before ∨ argument ≠ "-v" ∧ argument ≠ "--version"

def Accepted (before arguments : List String) : Prop :=
  ∀ front argument back, arguments = front ++ argument :: back → ¬ Refused (before ++ front) argument

def optionPart (arguments : List String) : List String := arguments.takeWhile (· != "--")

def behindOptions (arguments : List String) : List String := (arguments.dropWhile (· != "--")).tail

def isName (argument : String) : Bool := argument ≠ "help" && argument.toList.head? ≠ some '-'

def namedScripts (arguments : List String) : List String :=
  (optionPart arguments).filter isName ++ behindOptions arguments

variable {before front rest arguments : List String} {argument : String}

theorem accepted_nil : Accepted before [] := by
  intro front argument back split
  cases front <;> cases split

theorem accepted_cons :
    Accepted before (argument :: rest) ↔ ¬ Refused before argument ∧ Accepted (before ++ [argument]) rest := by
  constructor
  · intro accepted
    refine ⟨?_,?_⟩
    · simpa using accepted [] argument rest rfl
    · intro front other back split
      simpa using accepted (argument :: front) other back (by rw [split,List.cons_append])
  · intro both front other back split
    cases front with
    | nil =>
      obtain ⟨rfl,rfl⟩ := List.cons.inj split
      simpa using both.1
    | cons first front =>
      obtain ⟨rfl,rfl⟩ := List.cons.inj split
      simpa using both.2 front other back rfl

theorem first_refused (refused : ¬ Accepted before arguments) :
    ∃ front argument back, arguments = front ++ argument :: back ∧ Accepted before front ∧
      Refused (before ++ front) argument := by
  induction arguments generalizing before with
  | nil => exact absurd accepted_nil refused
  | cons argument arguments ih =>
    by_cases here : Refused before argument
    · exact ⟨[],argument,arguments,rfl,accepted_nil,by simpa using here⟩
    · rw [accepted_cons,not_and] at refused
      obtain ⟨front,other,back,rfl,accepted,later⟩ := ih (refused here)
      exact ⟨argument :: front,other,back,rfl,accepted_cons.mpr ⟨here,accepted⟩,by simpa using later⟩

theorem options_split (arguments : List String) :
    arguments = optionPart arguments ∧ behindOptions arguments = [] ∨
      arguments = optionPart arguments ++ "--" :: behindOptions arguments := by
  have whole := List.takeWhile_append_dropWhile (p := (· != "--")) (l := arguments)
  unfold optionPart behindOptions
  cases behind : arguments.dropWhile (· != "--") with
  | nil => exact .inl ⟨by simpa [behind] using whole.symm,rfl⟩
  | cons mark rest =>
    have found := List.head?_dropWhile_not (· != "--") arguments
    obtain rfl : mark = "--" := by simpa [behind] using found
    rw [behind] at whole
    exact .inr whole.symm

theorem optionPart_plain : "--" ∉ optionPart arguments := by
  intro member
  simpa using List.mem_takeWhile_imp member

namespace Arguments

theorem asksForHelp_iff : asksForHelp argument = true ↔ argument = "--help" ∨ argument = "help" := by
  simp [asksForHelp]

theorem asksForVersion_iff : asksForVersion argument = true ↔ argument = "-v" ∨ argument = "--version" := by
  simp [asksForVersion]

theorem isOption_iff : isOption argument = true ↔ argument.toList.head? = some '-' := by
  simp [isOption]

def known (before : List String) : Arguments :=
  ⟨before.any asksForHelp,before.any asksForVersion,before.filter isName⟩

theorem known_help : (known before).help = true ↔ HelpIn before := by
  simp only [known,List.any_eq_true,asksForHelp_iff,HelpIn]
  grind

theorem known_version : (known before).version = true ↔ VersionIn before := by
  simp only [known,List.any_eq_true,asksForVersion_iff,VersionIn]
  grind

theorem known_concat (before : List String) (argument : String) :
    known (before ++ [argument]) =
      ⟨before.any asksForHelp || asksForHelp argument,before.any asksForVersion || asksForVersion argument,
        before.filter isName ++ if isName argument then [argument] else []⟩ := by
  simp [known,List.filter_cons]

theorem help_word (help : asksForHelp argument = true) :
    asksForVersion argument = false ∧ isName argument = false ∧ argument ≠ "--" := by
  rcases asksForHelp_iff.mp help with rfl | rfl <;> decide +kernel

theorem version_option (version : asksForVersion argument = true) : isOption argument = true := by
  rcases asksForVersion_iff.mp version with rfl | rfl <;> decide +kernel

theorem read_accepted (plain : argument ≠ "--") (fit : ¬ Refused before argument) (rest : List String) :
    read (known before) (argument :: rest) = read (known (before ++ [argument])) rest := by
  rw [read,if_neg plain,known_concat]
  cases help : asksForHelp argument with
  | true =>
    obtain ⟨notVersion,notName,_⟩ := help_word help
    simp [notVersion,notName,known]
  | false =>
    have words : ¬ (argument = "--help" ∨ argument = "help") := by simp [← asksForHelp_iff,help]
    cases option : isOption argument with
    | true =>
      have dash := isOption_iff.mp option
      have early : ¬ HelpIn before := fun helped => fit ⟨dash,not_or.mp words |>.1,.inl helped⟩
      have version : asksForVersion argument = true := by
        rw [asksForVersion_iff]
        by_contra unknown
        exact fit ⟨dash,not_or.mp words |>.1,.inr (not_or.mp unknown)⟩
      have notName : isName argument = false := by simp [isName,dash]
      rw [if_neg Bool.false_ne_true,if_pos rfl,if_neg (mt known_help.mp early),if_pos version]
      simp [notName,version,known]
    | false =>
      have notVersion : asksForVersion argument = false := by
        apply eq_false_of_ne_true
        intro version
        simp [version_option version] at option
      have name : isName argument = true := by
        have dash : argument.toList.head? ≠ some '-' := by simp [← isOption_iff,option]
        simp [isName,dash,not_or.mp words |>.2]
      simp [notVersion,name,known]

theorem read_refused (plain : argument ≠ "--") (refused : Refused before argument) (rest : List String) :
    (HelpIn before → read (known before) (argument :: rest) = .error .trailing) ∧
      (¬ HelpIn before → read (known before) (argument :: rest) = .error (.unrecognized argument)) := by
  have option := isOption_iff.mpr refused.option
  have notHelp : asksForHelp argument = false := by
    apply eq_false_of_ne_true
    intro help
    obtain rfl := (asksForHelp_iff.mp help).resolve_left refused.notHelp
    simp [isOption] at option
  rw [read,if_neg plain,notHelp,if_neg Bool.false_ne_true,if_pos option]
  constructor
  · intro helped
    rw [if_pos (known_help.mpr helped)]
  · intro early
    have notVersion : asksForVersion argument = false := by
      apply eq_false_of_ne_true
      intro version
      exact not_or.mpr (refused.unfit.resolve_left early) (asksForVersion_iff.mp version)
    rw [if_neg (mt known_help.mp early),notVersion,if_neg Bool.false_ne_true]

-- By induction on the arguments: as far as none is refused and none ends the options, what
-- is known is what they say.
theorem read_front (plain : "--" ∉ front) (accepted : Accepted before front) (rest : List String) :
    read (known before) (front ++ rest) = read (known (before ++ front)) rest := by
  induction front generalizing before with
  | nil => simp
  | cons argument front ih =>
    obtain ⟨here,later⟩ := accepted_cons.mp accepted
    obtain ⟨first,others⟩ := List.ne_and_not_mem_of_not_mem_cons plain
    rw [List.cons_append,read_accepted first.symm here,ih others later]
    simp

theorem read_options (accepted : Accepted [] (optionPart arguments)) :
    read .none arguments = .ok {known (optionPart arguments) with scripts := namedScripts arguments} := by
  have front := read_front optionPart_plain accepted
  rcases options_split arguments with ⟨all,unmarked⟩ | marked
  · have read_all := front []
    rw [List.append_nil,← all] at read_all
    rw [show Arguments.none = known [] from rfl,read_all,namedScripts,unmarked,List.append_nil,← all]
    rfl
  · have read_marked := front ("--" :: behindOptions arguments)
    rw [← marked] at read_marked
    rw [show Arguments.none = known [] from rfl,read_marked,read,if_pos rfl]
    rfl

theorem read_fault {back : List String} (split : optionPart arguments = front ++ argument :: back)
    (accepted : Accepted [] front) (refused : Refused front argument) :
    (HelpIn front → read .none arguments = .error .trailing) ∧
      (¬ HelpIn front → read .none arguments = .error (.unrecognized argument)) := by
  have plain := @optionPart_plain arguments
  rw [split,List.mem_append,List.mem_cons,not_or,not_or] at plain
  obtain ⟨rest,whole⟩ : ∃ rest, arguments = front ++ argument :: rest := by
    rcases options_split arguments with ⟨all,_⟩ | marked
    · exact ⟨back,all.trans split⟩
    · refine ⟨back ++ "--" :: behindOptions arguments,?_⟩
      rw [split] at marked
      simpa using marked
  have reached : read .none arguments = read (known front) (argument :: rest) := by
    rw [whole]
    exact read_front plain.1 accepted (argument :: rest)
  rw [reached]
  exact read_refused (Ne.symm plain.2.1) refused rest

end Arguments

theorem hint_text (message : String) :
    message ++ "\nRun " ++ programName ++ " --help for more information.\n" =
      message ++ "\nRun nex --help for more information.\n" := by
  have hint : "\nRun " ++ (programName ++ " --help for more information.\n") =
      "\nRun nex --help for more information.\n" := by decide +kernel
  rw [String.append_assoc,String.append_assoc,hint]

theorem run_refused {arguments front back : List String} {argument : String}
    (split : optionPart arguments = front ++ argument :: back) (accepted : Accepted [] front)
    (refused : Refused front argument) (read : String → Except ReadFault ByteArray) (lines : List (List Char)) :
    (HelpIn front → run read lines arguments =
      ⟨1,"","Trailing arguments are not allowed after `help`.\nRun nex --help for more information.\n"⟩) ∧
    (¬ HelpIn front → run read lines arguments =
      ⟨1,"","Unrecognized argument: " ++ argument ++ "\n\nRun nex --help for more information.\n"⟩) := by
  obtain ⟨trailing,unrecognized⟩ := Arguments.read_fault split accepted refused
  refine ⟨?_,?_⟩
  · intro helped
    have text : Arguments.Fault.trailing.message ++ "\nRun nex --help for more information.\n" =
        "Trailing arguments are not allowed after `help`.\nRun nex --help for more information.\n" := by
      decide +kernel
    simp only [run,Request.ofArguments,trailing helped,hint_text,text]
  · intro early
    have feeds : "\n" ++ "\nRun nex --help for more information.\n" =
        "\n\nRun nex --help for more information.\n" := by decide +kernel
    have told : (Arguments.Fault.unrecognized argument).message =
        "Unrecognized argument: " ++ argument ++ "\n" := rfl
    simp only [run,Request.ofArguments,unrecognized early,hint_text]
    rw [told,String.append_assoc,feeds]

-- The arguments before the first `--` decide. The first of them that is refused does, if
-- there is one; otherwise a call for help goes before one for the version, and this before
-- all scripts. No file and no line that is typed matters to what is decided so.
theorem run_precedence (arguments : List String) :
    (¬ Accepted [] (optionPart arguments) →
      ∃ front argument back, optionPart arguments = front ++ argument :: back ∧ Accepted [] front ∧
        Refused front argument ∧ ∀ read lines,
          (HelpIn front → run read lines arguments =
            ⟨1,"","Trailing arguments are not allowed after `help`.\nRun nex --help for more information.\n"⟩) ∧
          (¬ HelpIn front → run read lines arguments =
            ⟨1,"","Unrecognized argument: " ++ argument ++ "\n\nRun nex --help for more information.\n"⟩)) ∧
    (Accepted [] (optionPart arguments) →
      (HelpIn (optionPart arguments) → ∀ read lines, run read lines arguments =
        ⟨0,"Usage: nex [-v] [--] [<script...>]\n\n" ++
          "Tokenize a nex script or run a REPL that prints tokens for each line.\n\n" ++
          "Positional Arguments:\n  script            script file\n\n" ++
          "Options:\n  -v, --version     print version information\n" ++
          "  --help, help      display usage information\n\n",""⟩) ∧
      (¬ HelpIn (optionPart arguments) → VersionIn (optionPart arguments) → ∀ read lines,
        run read lines arguments = ⟨0,"nex 0.1.0\n",""⟩) ∧
      (¬ HelpIn (optionPart arguments) → ¬ VersionIn (optionPart arguments) →
        (2 ≤ (namedScripts arguments).length → ∀ read lines,
          run read lines arguments = ⟨64,"","Usage: nex [script file]\n"⟩) ∧
        (∀ name, namedScripts arguments = [name] → ∀ read lines,
          run read lines arguments = runScript (read name)) ∧
        (namedScripts arguments = [] → ∀ read lines,
          run read lines arguments = ⟨0,interact lines,""⟩))) := by
  refine ⟨?_,?_⟩
  · intro faulty
    obtain ⟨front,argument,back,split,accepted,refused⟩ := first_refused faulty
    exact ⟨front,argument,back,split,accepted,refused,run_refused split accepted refused⟩
  · intro accepted
    have known := Arguments.read_options accepted
    refine ⟨?_,?_,?_⟩
    · intro helped read lines
      have asked : Request.ofArguments arguments = .help := by
        simp [Request.ofArguments,known,Arguments.known_help.mpr helped]
      simp only [run,asked,Outcome.success]
      decide +kernel
    · intro early version read lines
      have asked : Request.ofArguments arguments = .version := by
        simp [Request.ofArguments,known,mt Arguments.known_help.mp early,Arguments.known_version.mpr version]
      have text : programName ++ " " ++ programVersion ++ "\n" = "nex 0.1.0\n" := by decide +kernel
      simp only [run,asked,Outcome.success,text]
    · intro early plain
      have help := mt Arguments.known_help.mp early
      have version := mt Arguments.known_version.mp plain
      refine ⟨?_,?_,?_⟩
      · intro several read lines
        obtain ⟨first,second,rest,names⟩ : ∃ first second rest, namedScripts arguments = first :: second :: rest := by
          match namedScripts arguments, several with
          | first :: second :: rest, _ => exact ⟨first,second,rest,rfl⟩
        have asked : Request.ofArguments arguments = .manyScripts := by
          simp [Request.ofArguments,known,help,version,names]
        have text : (Failure.usage (programName ++ " [script file]")).message ++ "\n" =
            "Usage: nex [script file]\n" := by decide +kernel
        simp only [run,asked,Outcome.failed,text]
        rfl
      · intro name single read lines
        have asked : Request.ofArguments arguments = .script name := by
          simp [Request.ofArguments,known,help,version,single]
        simp [run,asked]
      · intro unnamed read lines
        have asked : Request.ofArguments arguments = .interactive := by
          simp [Request.ofArguments,known,help,version,unnamed]
        simp [run,asked,Outcome.success]

-- The option in the middle is refused for the call for help before it.
example (read : String → Except ReadFault ByteArray) (lines : List (List Char)) :
    run read lines ["-v","help","a","-v","-x"] =
      ⟨1,"","Trailing arguments are not allowed after `help`.\nRun nex --help for more information.\n"⟩ :=
  rfl

end ScriptLexer
