import ScriptLexer.Proofs.Command.Output
import ScriptLexer.Proofs.Scan.Sinks
import ScriptLexer.Proofs.Text.Encoding

-- The run of a script step by step: the text is read whole or not at all, every error is
-- printed as the reader comes upon it, the tokens are printed behind the last of them, and the
-- count of the sink decides how the run ends.
namespace ScriptLexer

theorem runSource_stdout (source : List Char) : (runSource source).stdout = printed source := by
  unfold runSource
  split <;> rfl

theorem runSource_clean {source : List Char} (errorless : (scan source).errors = []) :
    (runSource source).exitCode = 0 ∧ (runSource source).stderr = "" := by
  simp only [runSource,errorless]
  exact ⟨rfl,rfl⟩

theorem runSource_failed {source : List Char} (failed : (scan source).errors ≠ []) :
    (runSource source).exitCode = 65 ∧
      (runSource source).stderr = (scan source).errors.length.repr ++ " lexical error(s) reported\n" := by
  unfold runSource
  split
  · rename_i errorless
    exact absurd (List.eq_nil_of_length_eq_zero errorless) failed
  · refine ⟨rfl,?_⟩
    have feed : " lexical error(s) reported\n" = " lexical error(s) reported" ++ "\n" := by decide +kernel
    rw [feed,← String.append_assoc]
    rfl

inductive Driver where
  | scanning (source : List Char) (reading : Reporting Reporter)
  | printing (tokens : List Token) (reporter : Reporter)
  | finished (outcome : Outcome)

namespace Driver

def opened (content : Except ReadFault ByteArray) : Driver :=
  match content with
  | .error fault => .finished (.failed "" (.unreadable fault.reason))
  | .ok bytes =>
    match String.fromUTF8? bytes with
    | none => .finished (.failed "" (.unreadable ReadFault.notText.reason))
    | some source => .scanning source.toList ⟨.initial,.fresh source.toList⟩

def conclude (reporter : Reporter) : Outcome :=
  if reporter.hadError then .failed reporter.shown (.lexicalErrors reporter.count)
  else .success reporter.shown

def step : Driver → Except Refusal Driver
  | .scanning source reading =>
    if reading.reader.stage = .ended then return .printing reading.tokens reading.sink
    else return .scanning source (← reading.step Reporter.report source)
  | .printing [] reporter => return .finished (conclude reporter)
  | .printing (token :: tokens) reporter => return .printing tokens (reporter.print token.display)
  | .finished outcome => return .finished outcome

def output : Driver → String
  | .scanning _ reading => reading.sink.shown
  | .printing _ reporter => reporter.shown
  | .finished outcome => outcome.stdout

inductive Reaches : Driver → Driver → Prop where
  | refl (driver : Driver) : Reaches driver driver
  | step {driver reached next : Driver} (before : Reaches driver reached)
      (stepped : reached.step = .ok next) : Reaches driver next

def reporterAfter (source : List Char) (tokens : List Token) : Reporter :=
  (tokens.map Token.display).foldl Reporter.print ((scan source).errors.foldl Reporter.report (.fresh source))

inductive Along (source : List Char) : Driver → Prop where
  | scanning {reading : Reporting Reporter}
      (run : Reporting.Runs Reporter.report source ⟨.initial,.fresh source⟩ reading) :
      Along source (.scanning source reading)
  | printing {front back : List Token} (tokens : (scan source).tokens = front ++ back) :
      Along source (.printing back (reporterAfter source front))
  | finished : Along source (.finished (runSource source))

variable {source : List Char} {driver reached : Driver} {reading next : Reporting Reporter}

theorem step_going (going : reading.reader.stage ≠ .ended)
    (stepped : reading.step Reporter.report source = .ok next) :
    step (.scanning source reading) = .ok (.scanning source next) := by
  simp only [step,if_neg going,stepped]
  rfl

theorem step_ended (ended : reading.reader.stage = .ended) :
    step (.scanning source reading) = .ok (.printing reading.tokens reading.sink) := by
  simp only [step,if_pos ended]
  rfl

theorem Reaches.trans {last : Driver} (first : Reaches driver reached) (second : Reaches reached last) :
    Reaches driver last := by
  induction second with
  | refl => exact first
  | step before stepped ih => exact .step ih stepped

theorem reporterAfter_tokens (source : List Char) :
    reporterAfter source (scan source).tokens = ⟨source,printed source,(scan source).errors.length⟩ :=
  Reporter.fresh_prints source _ _

theorem conclude_tokens (source : List Char) :
    conclude (reporterAfter source (scan source).tokens) = runSource source := by
  rw [reporterAfter_tokens,conclude,runSource,Reporter.hadError]
  cases (scan source).errors.length with
  | zero => rfl
  | succ count => rfl

theorem Along.steps (along : Along source driver) : ∃ next, driver.step = .ok next ∧ Along source next := by
  cases along with
  | @scanning reading run =>
    by_cases ended : reading.reader.stage = .ended
    · obtain ⟨tokens,sink⟩ := Reporting.Scans.results ⟨run,ended⟩
      refine ⟨_,step_ended ended,?_⟩
      rw [tokens,sink]
      exact .printing (List.nil_append _).symm
    · obtain ⟨passed,reads⟩ := run.reader_runs
      obtain ⟨reader,ran,_⟩ := Reader.proceeds (reads.gains (Reader.initial_valid source)).1 ended
      obtain ⟨later,stepped,_⟩ := Reporting.step_exists ran
      exact ⟨_,step_going ended stepped,.scanning (.step run ended stepped)⟩
  | @printing front back tokens =>
    cases back with
    | nil =>
      rw [List.append_nil] at tokens
      refine ⟨.finished (runSource source),?_,.finished⟩
      rw [← conclude_tokens,tokens]
      rfl
    | cons token back =>
      have printed : (reporterAfter source front).print token.display = reporterAfter source (front ++ [token]) := by
        simp [reporterAfter]
      refine ⟨_,rfl,?_⟩
      rw [printed]
      apply Along.printing
      simp [tokens]
  | finished => exact ⟨_,rfl,.finished⟩

theorem Along.reaches (along : Along source driver) (reaches : Reaches driver reached) : Along source reached := by
  induction reaches with
  | refl => exact along
  | step before stepped ih =>
    obtain ⟨next,ran,later⟩ := ih.steps
    rw [stepped] at ran
    cases ran
    exact later

theorem reaches_reading {first last : Reporting Reporter}
    (run : Reporting.Runs Reporter.report source first last) :
    Reaches (.scanning source first) (.scanning source last) := by
  induction run with
  | refl => exact .refl _
  | step run going stepped ih => exact .step ih (step_going going stepped)

theorem reaches_printed (tokens : List Token) (reporter : Reporter) :
    Reaches (.printing tokens reporter)
      (.printing [] ((tokens.map Token.display).foldl Reporter.print reporter)) := by
  induction tokens generalizing reporter with
  | nil => exact .refl _
  | cons token tokens ih => exact Reaches.trans (.step (.refl _) rfl) (ih _)

theorem reaches_end (source : List Char) :
    Reaches (.scanning source ⟨.initial,.fresh source⟩) (.finished (runSource source)) := by
  obtain ⟨reading,run,ended⟩ := Reporting.scans_exists Reporter.report source (.fresh source)
  obtain ⟨tokens,sink⟩ := Reporting.Scans.results ⟨run,ended⟩
  have scanned := Reaches.step (reaches_reading run) (step_ended ended)
  have shown := reaches_printed (scan source).tokens ((scan source).errors.foldl Reporter.report (.fresh source))
  rw [tokens,sink] at scanned
  have last : step (.printing [] (reporterAfter source (scan source).tokens)) =
      .ok (.finished (runSource source)) := by
    rw [← conclude_tokens]
    rfl
  exact .step (scanned.trans shown) last

theorem finished_stays {outcome : Outcome} (reaches : Reaches (.finished outcome) reached) :
    reached = .finished outcome := by
  induction reaches with
  | refl => rfl
  | step before stepped ih =>
    subst ih
    cases stepped
    rfl

theorem reaches_finished {outcome : Outcome} (along : Along source driver)
    (ends : Reaches driver (.finished (runSource source))) :
    Reaches driver (.finished outcome) ↔ outcome = runSource source := by
  constructor
  · intro reaches
    cases along.reaches reaches
    rfl
  · rintro rfl
    exact ends

theorem Along.output_visible (along : Along source driver) : ∃ text, driver.output = visible text := by
  cases along with
  | scanning run => exact ⟨_,congrArg Reporter.shown (run.sink_eq.trans (Reporter.fresh_prints source _ []))⟩
  | printing tokens => exact ⟨_,congrArg Reporter.shown (Reporter.fresh_prints source _ _)⟩
  | finished => exact ⟨_,runSource_stdout source⟩

section Opened

variable {content : ByteArray} {text : String}

theorem opened_unread (unread : String.fromUTF8? content = none) :
    opened (.ok content) = .finished (runScript (.ok content)) := by
  simp only [opened,runScript,unread]

theorem opened_read (decoded : String.fromUTF8? content = some text) :
    opened (.ok content) = .scanning text.toList ⟨.initial,.fresh text.toList⟩ := by
  simp only [opened,decoded]

theorem opened_along (decoded : String.fromUTF8? content = some text) :
    Along text.toList (.opened (.ok content)) := by
  rw [opened_read decoded]
  exact .scanning (.refl _)

theorem runScript_unread (unread : String.fromUTF8? content = none) :
    runScript (.ok content) =
      ⟨66,"","Could not read from file stream did not contain valid UTF-8\n"⟩ := by
  simp only [runScript,unread]
  decide +kernel

theorem runScript_read (decoded : String.fromUTF8? content = some text) :
    runScript (.ok content) = runSource text.toList := by
  simp only [runScript,decoded]

theorem reaches_outcome (content : ByteArray) (reached : Outcome) :
    Reaches (.opened (.ok content)) (.finished reached) ↔ reached = runScript (.ok content) := by
  cases decoded : String.fromUTF8? content with
  | none =>
    rw [opened_unread decoded]
    constructor
    · intro reaches
      exact finished.inj (finished_stays reaches)
    · rintro rfl
      exact .refl _
  | some text =>
    rw [runScript_read decoded]
    apply reaches_finished (opened_along decoded)
    rw [opened_read decoded]
    exact reaches_end text.toList

theorem reaches_printable {driver : Driver} (reaches : Reaches (.opened (.ok content)) driver) :
    IsPrintable driver.output := by
  cases decoded : String.fromUTF8? content with
  | none =>
    rw [opened_unread decoded,runScript_unread decoded] at reaches
    rw [finished_stays reaches]
    intro c member
    cases member
  | some text =>
    obtain ⟨shown,filtered⟩ := ((opened_along decoded).reaches reaches).output_visible
    rw [filtered]
    exact visible_printable shown

end Opened

end Driver

-- The bytes of a script decide all of its run. If they are no text, nothing is scanned. If
-- they are, every byte belongs to the text, a mark at its begin too, and what is printed on the
-- way to the end is the report of every error and then every token, without a control
-- character at any point.
theorem run_stored_script (read : String → Except ReadFault ByteArray) (typed : List (List Char))
    (arguments : List String) (name : String) (content : ByteArray)
    (asks : Request.ofArguments arguments = .script name) (stored : read name = .ok content) :
    let bytes := content.data.toList
    let begun := Driver.opened (read name)
    let outcome := run read typed arguments
    (∀ reached, Driver.Reaches begun (.finished reached) ↔ reached = outcome) ∧
    (∀ driver, Driver.Reaches begun driver → IsPrintable driver.output) ∧ IsPrintable outcome.stdout ∧
    (¬ Utf8.IsWellFormed bytes →
      outcome = ⟨66,"","Could not read from file stream did not contain valid UTF-8\n"⟩ ∧
        ∀ source reading, ¬ Driver.Reaches begun (.scanning source reading)) ∧
    (Utf8.IsWellFormed bytes →
      ∃ source, (∀ text, Utf8.Decodes bytes text ↔ text = source) ∧
        (∀ rest, bytes = 0xef :: 0xbb :: 0xbf :: rest → ∃ text, source = '\ufeff' :: text) ∧
        let errors := (scan source).errors
        let shown := errors.map (·.report source) ++ (scan source).tokens.map Token.display
        PassesAs (String.join (shown.map (· ++ "\n"))) outcome.stdout ∧
        (errors = [] → outcome.exitCode = 0 ∧ outcome.stderr = "") ∧
        (errors ≠ [] → outcome.exitCode = 65 ∧
          outcome.stderr = errors.length.repr ++ " lexical error(s) reported\n")) := by
  intro bytes begun outcome
  have answered : outcome = runScript (.ok content) := by simp only [outcome,run,asks,stored]
  have opens : begun = .opened (.ok content) := by simp only [begun,stored]
  rw [answered,opens]
  refine ⟨Driver.reaches_outcome content,fun driver => Driver.reaches_printable,?_,?_,?_⟩
  · exact Driver.reaches_printable ((Driver.reaches_outcome content _).mpr rfl)
  · intro malformed
    have unread := Utf8.unread_iff.mpr malformed
    refine ⟨Driver.runScript_unread unread,?_⟩
    intro source reading reaches
    rw [Driver.opened_unread unread] at reaches
    cases Driver.finished_stays reaches
  · intro wellFormed
    obtain ⟨source,decodes⟩ := Utf8.isWellFormed_iff.mp wellFormed
    have decoded : String.fromUTF8? content = some (String.ofList source) := by
      rw [Utf8.read_iff,String.toList_ofList]
      exact decodes
    have scanned := Driver.runScript_read decoded
    rw [String.toList_ofList] at scanned
    rw [scanned]
    refine ⟨source,?_,?_,passesAs_iff.mpr (runSource_stdout source),runSource_clean,runSource_failed⟩
    · intro text
      constructor
      · intro other
        exact Utf8.decodes_unique other decodes
      · rintro rfl
        exact decodes
    · intro rest marked
      rw [marked] at decodes
      exact Utf8.decodes_first (c := '\ufeff') decodes

theorem run_stored_script_mark :
    let surrogate : ByteArray := ⟨#[0x22,0xed,0xa0,0x80,0x22]⟩
    let marked : ByteArray := ⟨#[0xef,0xbb,0xbf,0x22,0x1b,0xc2,0x85,0x22]⟩
    let read := fun name => .ok (if name = "-" then marked else surrogate)
    (Request.ofArguments ["a"] = .script "a" ∧ read "a" = .ok surrogate ∧
      run read [] ["a"] = ⟨66,"","Could not read from file stream did not contain valid UTF-8\n"⟩) ∧
    Request.ofArguments ["--","-"] = .script "-" ∧ read "-" = .ok marked ∧
      (run read [] ["--","-"]).exitCode = 65 ∧
      (run read [] ["--","-"]).stderr = "1 lexical error(s) reported\n" ∧
      (run read [] ["--","-"]).stdout =
        "  × [line 1] Error: Unexpected character\n   ╭────\n 1 │ \ufeff\"^[U+0085\"\n   · ┬\n" ++
        "   · ╰── `\ufeff`\n   ╰────\n\nString \"^[U+0085\" ^[U+0085\nEOF \n" ∧
      IsPrintable (run read [] ["--","-"]).stdout := by
  intro surrogate marked read
  have first : Request.ofArguments ["a"] = .script "a" := by decide +kernel
  have second : Request.ofArguments ["--","-"] = .script "-" := by decide +kernel
  have unread : String.fromUTF8? surrogate = none := by decide +kernel
  have decodes : Utf8.Decodes marked.data.toList ['\ufeff','"','\x1b','\u0085','"'] := Utf8.decodes_iff.mpr rfl
  have single : (scan ['\ufeff','"','\x1b','\u0085','"']).errors.length = 1 := by decide +kernel
  obtain ⟨_,_,_,refused,_⟩ := run_stored_script read [] ["a"] "a" surrogate first rfl
  obtain ⟨_,_,plain,_,answered⟩ := run_stored_script read [] ["--","-"] "-" marked second rfl
  obtain ⟨source,unique,_,passes,_,failed⟩ := answered (Utf8.isWellFormed_iff.mpr ⟨_,decodes⟩)
  obtain rfl := (unique _).mp decodes
  obtain ⟨code,count⟩ := failed (List.ne_nil_of_length_eq_add_one single)
  refine ⟨⟨first,rfl,(refused (Utf8.unread_iff.mp unread)).1⟩,second,rfl,code,?_,?_,plain⟩
  · rw [count,single]
    decide +kernel
  · rw [passesAs_iff.mp passes]
    decide +kernel

end ScriptLexer
