import ScriptLexer.Proofs.Reader.Run

-- A reader that reports its errors while it reads. Of the sink it reports to it knows no more
-- than how to do that: what the sink makes of an error never comes back to it.
namespace ScriptLexer

namespace Reader

def Results {α : Type} (ran : Except Refusal α) (holds : α → Prop) : Prop := ∀ a, ran = .ok a → holds a

section Results

variable {α β : Type} {first : Except Refusal α} {next : α → Except Refusal β} {holds : β → Prop}

theorem Results.pure {b : β} (here : holds b) : Results (Pure.pure b) holds := by
  intro other same
  cases same
  exact here

theorem Results.bind {between : α → Prop} (begun : Results first between)
    (later : ∀ a, between a → Results (next a) holds) : Results (first >>= next) holds := by
  intro b ran
  cases done : first with
  | error refusal =>
    rw [done] at ran
    cases ran
  | ok a =>
    rw [done] at ran
    exact later a (begun a done) b ran

theorem Results.look (later : ∀ a, Results (next a) holds) : Results (first >>= next) holds := by
  have begun : Results first fun _ => True := fun _ _ => trivial
  exact .bind begun fun a _ => later a

end Results

variable {source : List Char} {s t : Reader}

def Tells (s t : Reader) : Prop := ∃ event : Option Event, t.told = s.told ++ event.toList

theorem Tells.silent (same : t.told = s.told) : Tells s t := ⟨none,by simp [same]⟩

theorem Tells.one (event : Event) (same : t.told = s.told) : Tells s (t.tell event) :=
  ⟨some event,congrArg (· ++ [event]) same⟩

theorem advance_told : Results (advance source s) fun read => read.2.told = s.told := by
  unfold advance
  split
  · intro read refused
    cases refused
  · exact .look fun c => .pure rfl

theorem accept_told (expected : Char) :
    Results (accept source s expected) fun read => read.2.told = s.told := by
  unfold accept
  split
  · exact .pure rfl
  · refine .look fun c => .pure ?_
    split <;> rfl

theorem addToken_tells (kind : TokenKind) (literal : Option Literal) (same : t.told = s.told) :
    Results (addToken source t kind literal) (Tells s) :=
  .look fun _ => .pure (.one _ same)

theorem begin_tells (c : Char) (same : t.told = s.told) : Results (begin source t c) (Tells s) := by
  unfold begin
  split
  · split
    · exact .pure (.silent same)
    · split
      · exact .pure (.silent same)
      · exact addToken_tells _ _ same
  · split_ifs
    · exact .pure (.silent same)
    · exact .pure (.silent same)
    · exact .pure (.silent same)
    · exact .pure (.silent same)
    · exact .pure (.silent same)
    · exact .pure (.one _ same)

theorem endNumber_tells : Results (endNumber source s) (Tells s) := .look fun _ => addToken_tells _ _ rfl

theorem step_tells : Results (s.step source) (Tells s) := by
  cases point : s.stage <;> simp only [step,point]
  case outer =>
    split
    · exact (addToken_tells .endOfSource none rfl).bind fun _ told => .pure told
    · exact .pure (.silent rfl)
  case dispatch => exact advance_told.bind fun _ same => begin_tells _ same
  case afterOperator o => exact (accept_told '=').bind fun _ same => addToken_tells _ _ same
  case afterSlash =>
    refine (accept_told '/').bind fun line same => ?_
    split
    · exact .pure (.silent same)
    · refine (accept_told '*').bind fun block also => ?_
      split
      · exact .pure (.silent (also.trans same))
      · exact addToken_tells _ _ (also.trans same)
  case lineComment =>
    refine .look fun c => ?_
    split
    · exact advance_told.bind fun _ same => .pure (.silent same)
    · exact .pure (.silent rfl)
  case blockComment =>
    split
    · exact .pure (.one _ rfl)
    · refine .look fun c => .look fun d => ?_
      split
      · exact advance_told.bind fun _ same => .pure (.silent same)
      · exact advance_told.bind fun _ same => .pure (.silent same)
  case closingSlash => exact advance_told.bind fun _ same => .pure (.silent same)
  case string =>
    refine .look fun c => ?_
    split
    · exact .pure (.silent rfl)
    · split
      · exact .pure (.one _ rfl)
      · exact advance_told.bind fun _ same => .look fun _ => addToken_tells _ _ same
  case stringCharacter => exact advance_told.bind fun _ same => .pure (.silent same)
  case wholeDigits =>
    refine .look fun c => ?_
    split
    · exact advance_told.bind fun _ same => .pure (.silent same)
    · refine .look fun d => .look fun e => ?_
      split
      · exact advance_told.bind fun _ same => .pure (.silent same)
      · exact endNumber_tells
  case fractionDigits =>
    refine .look fun c => ?_
    split
    · exact advance_told.bind fun _ same => .pure (.silent same)
    · exact endNumber_tells
  case word =>
    refine .look fun c => ?_
    split
    · exact advance_told.bind fun _ same => .pure (.silent same)
    · exact .look fun _ => addToken_tells _ _ rfl
  case ended => exact .pure (.silent rfl)

end Reader

structure Reporting (σ : Type) where
  reader : Reader
  sink : σ

namespace Reporting

variable {σ : Type} (report : σ → LexError → σ) (source : List Char)

def tokens (r : Reporting σ) : List Token := r.reader.told.filterMap Event.token?

def errors (r : Reporting σ) : List LexError := r.reader.told.filterMap Event.error?

def step (r : Reporting σ) : Except Refusal (Reporting σ) := do
  let next ← r.reader.step source
  let news := next.told.drop r.reader.told.length
  return ⟨next,(news.filterMap Event.error?).foldl report r.sink⟩

inductive Runs : Reporting σ → Reporting σ → Prop where
  | refl (r : Reporting σ) : Runs r r
  | step {r t next : Reporting σ} (run : Runs r t) (going : t.reader.stage ≠ .ended)
      (stepped : t.step report source = .ok next) : Runs r next

def Scans (sink : σ) (r : Reporting σ) : Prop :=
  Runs report source ⟨.initial,sink⟩ r ∧ r.reader.stage = .ended

variable {report : σ → LexError → σ} {source : List Char} {sink : σ} {r t next : Reporting σ}

theorem step_sink (stepped : r.step report source = .ok next) :
    r.reader.step source = .ok next.reader ∧ ∃ news : Option LexError,
      next.errors = r.errors ++ news.toList ∧ next.sink = news.toList.foldl report r.sink := by
  unfold step at stepped
  cases ran : r.reader.step source with
  | error refusal =>
    rw [ran] at stepped
    cases stepped
  | ok reader =>
    rw [ran] at stepped
    cases stepped
    obtain ⟨event,told⟩ := Reader.step_tells reader ran
    refine ⟨rfl,event.bind Event.error?,?_,?_⟩
    · simp only [errors,told,List.filterMap_append,filterMap_toList]
    · simp only [told,List.drop_left,filterMap_toList]

theorem step_exists {reader : Reader} (ran : r.reader.step source = .ok reader) :
    ∃ next : Reporting σ, r.step report source = .ok next ∧ next.reader = reader := by
  unfold step
  rw [ran]
  exact ⟨_,rfl,rfl⟩

theorem Runs.sink_eq (run : Runs report source ⟨.initial,sink⟩ r) : r.sink = r.errors.foldl report sink := by
  induction run with
  | refl => rfl
  | step run going stepped ih =>
    obtain ⟨_,news,told,reached⟩ := step_sink stepped
    rw [reached,told,List.foldl_append,ih]

theorem Runs.reader_runs (run : Runs report source r t) :
    ∃ passed, Reader.Runs source r.reader passed t.reader := by
  induction run with
  | refl => exact ⟨[],.refl r.reader⟩
  | step run going stepped ih =>
    obtain ⟨passed,before⟩ := ih
    exact ⟨_,.step before going (step_sink stepped).1⟩

theorem runs_reader {s : Reader} {passed : List Reader} (run : Reader.Runs source r.reader passed s) :
    ∃ t : Reporting σ, Runs report source r t ∧ t.reader = s := by
  induction run with
  | refl => exact ⟨r,.refl r,rfl⟩
  | step run going stepped ih =>
    obtain ⟨t,before,rfl⟩ := ih
    obtain ⟨next,reported,same⟩ := step_exists stepped
    exact ⟨next,.step before going reported,same⟩

theorem scans_exists (report : σ → LexError → σ) (source : List Char) (sink : σ) :
    ∃ r, Scans report source sink r := by
  obtain ⟨passed,s,run,ended,_⟩ := Reader.runs_ended source
  obtain ⟨r,reported,rfl⟩ := runs_reader (r := ⟨.initial,sink⟩) run
  exact ⟨r,reported,ended⟩

theorem Scans.results (scans : Scans report source sink r) :
    r.tokens = (scan source).tokens ∧ r.sink = (scan source).errors.foldl report sink := by
  obtain ⟨run,ended⟩ := scans
  obtain ⟨passed,reads⟩ := run.reader_runs
  have told := (reads.gains (Reader.initial_valid source)).1.told_all ended
  have errors : r.errors = (scan source).errors := by
    simp only [Reporting.errors,told,List.filterMap_append,Scan.errors]
    exact List.append_nil _
  refine ⟨?_,?_⟩
  · simp only [Reporting.tokens,told,List.filterMap_append,Scan.tokens]
    rfl
  · rw [run.sink_eq,errors]

end Reporting

end ScriptLexer
