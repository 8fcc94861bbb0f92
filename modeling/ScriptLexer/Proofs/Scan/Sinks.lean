import ScriptLexer.Command.Run
import ScriptLexer.Scan.Tally
import ScriptLexer.Proofs.Reader.Reporting

-- The two sinks for errors by themselves, each with scans of its own: the reporter of a run,
-- which prints and counts, and a list. A tally is what there is to know of both.
namespace ScriptLexer

structure Reporter where
  source : List Char
  shown : String
  count : Nat
deriving DecidableEq

namespace Reporter

def fresh (source : List Char) : Reporter := ⟨source,"",0⟩

def print (reporter : Reporter) (entry : String) : Reporter :=
  {reporter with shown := reporter.shown ++ visible (entry ++ "\n")}

def report (reporter : Reporter) (error : LexError) : Reporter :=
  {reporter.print (error.report reporter.source) with count := reporter.count + 1}

def hadError (reporter : Reporter) : Bool := 0 < reporter.count

theorem prints (reporter : Reporter) (shown : List String) :
    shown.foldl print reporter =
      {reporter with shown := reporter.shown ++ visible (String.join (shown.map (· ++ "\n")))} := by
  induction shown generalizing reporter with
  | nil => simp [visible]
  | cons entry shown ih =>
    rw [List.foldl_cons,ih,List.map_cons,String.join_cons,visible_append,← String.append_assoc]
    rfl

theorem reports (reporter : Reporter) (errors : List LexError) :
    errors.foldl report reporter =
      {(errors.map (·.report reporter.source)).foldl print reporter with
        count := reporter.count + errors.length} := by
  induction errors generalizing reporter with
  | nil => rfl
  | cons error errors ih =>
    rw [List.foldl_cons,ih,List.map_cons,List.foldl_cons,prints,prints,List.length_cons,
      Nat.add_comm errors.length,← Nat.add_assoc]
    rfl

theorem fresh_prints (source : List Char) (errors : List LexError) (shown : List String) :
    shown.foldl print (errors.foldl report (.fresh source)) =
      ⟨source,visible (String.join ((errors.map (·.report source) ++ shown).map (· ++ "\n"))),
        errors.length⟩ := by
  rw [reports,prints,prints,List.map_append,String.join_append,visible_append]
  simp [fresh]

end Reporter

def collect (collected : List LexError) (error : LexError) : List LexError := collected ++ [error]

theorem collects (collected errors : List LexError) : errors.foldl collect collected = collected ++ errors := by
  induction errors generalizing collected with
  | nil => exact (List.append_nil collected).symm
  | cons error errors ih =>
    rw [List.foldl_cons,ih]
    exact List.append_assoc collected [error] errors

def Tally.Step.brings : Tally.Step → List LexError
  | .report error => [error]
  | .scan source => (Tally.empty.scan source).2.collected

inductive Follows {σ : Type} (report : σ → LexError → σ) : σ → List Tally.Step → σ → Prop where
  | nil (sink : σ) : Follows report sink [] sink
  | report {sink reached : σ} {error : LexError} {steps : List Tally.Step}
      (later : Follows report (report sink error) steps reached) :
      Follows report sink (.report error :: steps) reached
  | scan {sink reached : σ} {source : List Char} {r : Reporting σ} {steps : List Tally.Step}
      (scans : Reporting.Scans report source sink r) (later : Follows report r.sink steps reached) :
      Follows report sink (.scan source :: steps) reached

namespace Tally

theorem reports (tally : Tally) (errors : List LexError) :
    errors.foldl report tally = ⟨tally.count + errors.length,tally.collected ++ errors⟩ := by
  induction errors generalizing tally with
  | nil => rw [List.foldl_nil,List.length_nil,Nat.add_zero,List.append_nil]
  | cons error errors ih =>
    rw [List.foldl_cons,ih,report,List.length_cons,List.append_assoc,Nat.add_assoc,Nat.add_comm 1]
    rfl

theorem brings_scan (source : List Char) : (Step.scan source).brings = (ScriptLexer.scan source).errors := by
  simp only [Step.brings,scan,reports]
  rfl

theorem advance_eq (tally : Tally) (step : Step) : tally.advance step = step.brings.foldl report tally := by
  cases step with
  | report error => rfl
  | scan source => exact congrArg (List.foldl report tally) (brings_scan source).symm

theorem advances (tally : Tally) (steps : List Step) :
    steps.foldl advance tally = (steps.flatMap Step.brings).foldl report tally := by
  induction steps generalizing tally with
  | nil => rfl
  | cons step steps ih => rw [List.foldl_cons,ih,advance_eq,List.flatMap_cons,List.foldl_append]

theorem advances_empty (steps : List Step) :
    steps.foldl advance empty =
      ⟨(steps.flatMap Step.brings).length,steps.flatMap Step.brings⟩ := by
  rw [advances,reports]
  exact congrArg (Tally.mk · _) (Nat.zero_add _)

end Tally

theorem follows_iff {σ : Type} {report : σ → LexError → σ} {sink reached : σ} {steps : List Tally.Step} :
    Follows report sink steps reached ↔ reached = (steps.flatMap Tally.Step.brings).foldl report sink := by
  induction steps generalizing sink with
  | nil =>
    constructor
    · intro follows
      cases follows
      rfl
    · intro same
      rw [same]
      exact .nil sink
  | cons step steps ih =>
    cases step with
    | report error =>
      constructor
      · intro follows
        cases follows with
        | report later => exact ih.mp later
      · intro same
        exact .report (ih.mpr same)
    | scan source =>
      rw [List.flatMap_cons,List.foldl_append,Tally.brings_scan]
      constructor
      · intro follows
        cases follows with
        | scan scans later =>
          rw [← scans.results.2]
          exact ih.mp later
      · intro same
        obtain ⟨r,scans⟩ := Reporting.scans_exists report source sink
        refine .scan scans (ih.mpr ?_)
        rw [scans.results.2]
        exact same

-- Through all steps the count is the length of the list, and each step leaves the list as it
-- was but for what it brings, at the end. No scan can tell what its sink was given before: for
-- whatever sink there is, its tokens and what the sink is given are the same.
theorem sinks_in_step (source : List Char) (steps : List Tally.Step) :
    let tally := steps.foldl Tally.advance .empty
    ∃ reporter collected,
      (∀ reached, Follows Reporter.report (.fresh source) steps reached ↔ reached = reporter) ∧
      (∀ reached, Follows collect [] steps reached ↔ reached = collected) ∧
      tally = ⟨reporter.count,collected⟩ ∧ tally.hadError = reporter.hadError ∧
      reporter.count = collected.length ∧ (reporter.hadError = true ↔ collected ≠ []) ∧
      (∀ step reached, Follows collect [] (steps ++ [step]) reached ↔ reached = collected ++ step.brings) ∧
      ∀ (σ : Type) (report : σ → LexError → σ) (sink : σ) (text : List Char),
        (∃ r, Reporting.Scans report text sink r) ∧ ∀ r, Reporting.Scans report text sink r →
          r.tokens = (Tally.empty.scan text).1 ∧ r.tokens = (tally.scan text).1 ∧
            r.sink = (Tally.Step.scan text).brings.foldl report sink := by
  intro tally
  let errors := steps.flatMap Tally.Step.brings
  have counted : (errors.foldl Reporter.report (.fresh source)).count = errors.length :=
    congrArg Reporter.count (Reporter.fresh_prints source errors [])
  have kept : errors.foldl collect [] = errors := collects [] errors
  have both : tally = ⟨errors.length,errors⟩ := Tally.advances_empty steps
  have nonempty : 0 < errors.length ↔ errors ≠ [] := List.length_pos_iff
  refine ⟨errors.foldl Reporter.report (.fresh source),errors,fun _ => follows_iff,?_,?_,?_,counted,?_,?_,?_⟩
  · intro reached
    rw [follows_iff,kept]
  · rw [counted,both]
  · rw [both,Tally.hadError,Reporter.hadError,counted]
  · rw [Reporter.hadError,counted,decide_eq_true_iff,nonempty]
  · intro step reached
    rw [follows_iff,collects,List.flatMap_append,List.flatMap_singleton,List.nil_append]
  · intro σ report sink text
    refine ⟨Reporting.scans_exists report text sink,?_⟩
    intro r scans
    obtain ⟨tokens,reached⟩ := scans.results
    refine ⟨tokens,tokens,?_⟩
    rw [Tally.brings_scan]
    exact reached

end ScriptLexer
