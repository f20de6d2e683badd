import SealedHttp.Handling.Behaviour

/-!
# Scripted handlers

A script is a list of steps on an exchange. A scripted handler runs one script for each verb; it
remembers nothing but a number. A step that fails ends its script.
-/

namespace SealedHttp

inductive ScriptStep where
  | write (data : Bytes)
  | writeValue (v : Value)
  | echo
  | echoValue
  | echoText
  | setStatus (status : Nat)
  | setKind (kind : BodyKind)
  | setCharset (charset : String)
  | notFound (verb : Verb)
  | reset
  | count
  | fail (message : String)
  | crash (message : String)
  | note (label : List String)
  deriving Repr

abbrev Script := List ScriptStep

def isStatus (n : Nat) : Bool := 100 ≤ n && n ≤ 999

def ScriptStep.run (n : Nat) (e : Exchange) : ScriptStep → Outcome Nat
  | write data => { state := n, exchange := e.write data }
  | writeValue v => { state := n, exchange := e.writeValue v }
  | echo => { state := n, exchange := e.write e.body }
  | echoValue =>
    match e.bodyValue with
    | .ok v => { state := n, exchange := e.writeValue v }
    | .error cause => { state := n, exchange := e, ending := .failed cause.message }
  | echoText =>
    match e.bodyText with
    | .ok s => { state := n, exchange := e.write (Bytes.ofText s) }
    | .error cause => { state := n, exchange := e, ending := .failed cause.message }
  | setStatus status =>
    if isStatus status then { state := n, exchange := e.setStatus status }
    else { state := n, exchange := e, ending := .failed "invalid status code" }
  | setKind kind => { state := n, exchange := e.setContentKind kind }
  | setCharset charset => { state := n, exchange := e.setCharset charset }
  | notFound verb => { state := n, exchange := e.notFound verb }
  | reset => { state := n, exchange := e.reset }
  | count => { state := n + 1, exchange := e.write (Bytes.ofText (toString (n + 1))) }
  | fail message => { state := n, exchange := e, ending := .failed message }
  | crash message => { state := n, exchange := e, ending := .crashed message }
  | note label => { state := n, exchange := e, notes := [⟨label, e⟩] }

namespace Script

def run : Script → Method Nat
  | [], n, e => { state := n, exchange := e }
  | step :: steps, n, e =>
    let o := step.run n e
    if o.ending.isCompleted then
      let rest := run steps o.state o.exchange
      { rest with notes := o.notes ++ rest.notes }
    else o

def method (verb : Verb) : Option Script → Method Nat
  | some script => script.run
  | none => .notFound verb

/-- The handlers that run scripts. A reset zeroes their number unless they keep it. -/
def behaviour (get post : Option Script) (keeps : Bool) : Behaviour Nat where
  fresh _ := .ok 0
  reset n := if keeps then n else 0
  get := method .get get
  post := method .post post

end Script
end SealedHttp
