import SpanScript.Template.Boundary
import SpanScript.Template.Excerpt
import SpanScript.Template.Markers
import SpanScript.Token.Trivia

/-!
# Rendering

A template is rendered from left to right.  The text up to the leftmost opening
marker is copied; the statement behind the marker is run; after it, and after any
trivia, the closing marker must stand, and rendering goes on behind that.  A
render ends when no opening marker is left, or with the first fault.

Each turn of `Rendering.run` handles the text and the statement of one marker,
and moves the cursor toward the end of the template, which is why it ends
whatever the statements do.  A `RenderJob` is a render with its environment, and
happens once.
-/

namespace SpanScript

inductive Phase
  | literal
  | script
  | verifyClose
  | done
  | fatal
  deriving DecidableEq, Repr

def Phase.name : Phase → String
  | literal => "literal"
  | script => "script"
  | verifyClose => "verify_close"
  | done => "done"
  | fatal => "fatal"

inductive RenderFault
  | failed (message : String) (offset : Int)
  | invalidEnd (start : Nat) (stop : Int)
  | unterminated (closer : Bytes) (offset : Nat) (context : String)
  deriving DecidableEq, Repr

namespace RenderFault

def message : RenderFault → String
  | failed message _ => message
  | invalidEnd start stop =>
    "statement at offset " ++ toString start ++ " ended at invalid offset " ++ toString stop
  | unterminated closer _ context =>
    "expected '" ++ Utf8.decodeLossy closer ++ "' after statement but got '" ++ context ++ "'"

def offset : RenderFault → Int
  | failed _ offset => offset
  | invalidEnd start _ => start
  | unterminated _ offset _ => offset

/-- What comes next in the template where the closing marker is missing. -/
def context? : RenderFault → Option String
  | unterminated _ _ context => some context
  | _ => none

end RenderFault

/-- Why a render stops before the end of its template. -/
inductive RenderStop
  | fault (f : RenderFault)
  | escaped (message : String)
  | unfinished
  | reused
  deriving DecidableEq, Repr

def reusedMessage : String := "a Renderer can only render once"

/-- How far a render has come: the phase, the offset behind the last closing
marker, the spans copied and run, and the bytes written. -/
structure Rendering where
  phase : Phase
  cursor : Nat
  literalSpans : List (Nat × Nat)
  scriptSpans : List (Nat × Nat)
  output : Bytes

namespace Rendering

/-- Before anything is rendered. -/
def start : Rendering := ⟨.literal, 0, [], [], []⟩

/-- Copies the text between two offsets, if there is any. -/
def copy (r : Rendering) (text : Bytes) (first last : Nat) : Rendering :=
  if last ≤ first then r
  else { r with
    output := r.output ++ text.window first last
    literalSpans := r.literalSpans ++ [(first, last)] }

def write (r : Rendering) (texts : List String) : Rendering :=
  { r with output := r.output ++ texts.flatMap Bytes.ofString }

/-- What a message shows where a closing marker is missing: a byte more than is
shown tells whether any is left out. -/
def excerptAt (m : Markers) (text : Bytes) (offset : Nat) : String :=
  excerpt (text.window offset (offset + m.excerptLimit + 1)) m.excerptLimit

/-- Renders from the cursor on, with the environment of the statements. -/
def run {ε : Type} (b : Boundary ε) (m : Markers) (text : PlacedText) (r : Rendering) (env : ε) :
    Option RenderStop × Rendering × ε :=
  let body := text.text
  match _found : body.find m.opener r.cursor with
  | none =>
    let r := r.copy body r.cursor body.length
    (none, { r with phase := .done, cursor := body.length }, env)
  | some opening =>
    let copied := r.copy body r.cursor opening
    let start := opening + m.opener.length
    let reply := b.execute env text start
    let ran := { copied.write reply.written with phase := .script }
    match reply.outcome with
    | .failed message offset => (some (.fault (.failed message offset)), ran, reply.environment)
    | .escaped message => (some (.escaped message), ran, reply.environment)
    | .unfinished => (some .unfinished, ran, reply.environment)
    | .ended stop =>
      if _within : start < stop ∧ stop ≤ body.length then
        let closing := pastTrivia body stop.toNat body.length
        if m.closer.isPrefixOf (body.drop closing) then
          run b m text
            { ran with
              phase := .literal
              scriptSpans := ran.scriptSpans ++ [(start, stop.toNat)]
              cursor := closing + m.closer.length }
            reply.environment
        else
          (some (.fault (.unterminated m.closer closing (excerptAt m body closing))),
            { ran with phase := .verifyClose }, reply.environment)
      else (some (.fault (.invalidEnd start stop)), ran, reply.environment)
termination_by text.text.length - r.cursor
decreasing_by
  have hcursor : r.cursor ≤ opening := by
    unfold Bytes.find at _found
    split at _found
    · exact Bytes.le_of_findFrom _ _ _ _ _found
    · exact absurd _found (by simp)
  have hclosing : stop.toNat ≤ pastTrivia text.text stop.toNat text.text.length :=
    Trivia.le_pastTrivia _ _ _
  have hbody : body.length = text.text.length := rfl
  omega

end Rendering

/-- A render of one template: how far it has come, and the environment of the
statements once there is one. -/
structure RenderJob (ε : Type) where
  rendering : Rendering
  environment : Option ε

namespace RenderJob

def fresh {ε : Type} : RenderJob ε := ⟨.start, none⟩

/-- Renders a template.  This happens once: if the job has begun, nothing is
done.  The environment is created first and closed in the end, however the
render ends; a fault leaves the job in the fatal phase. -/
def render {ε : Type} (b : Boundary ε) (m : Markers) (t : Template) (job : RenderJob ε) :
    Option RenderStop × RenderJob ε :=
  if job.rendering.phase ≠ .literal ∨ job.rendering.cursor ≠ 0 then (some .reused, job)
  else
    match job.rendering.run b m t.placed (b.create t.path) with
    | (some (.fault f), rendering, env) =>
      (some (.fault f), ⟨{ rendering with phase := .fatal }, some (b.close env)⟩)
    | (stop, rendering, env) => (stop, ⟨rendering, some (b.close env)⟩)

end RenderJob

end SpanScript
