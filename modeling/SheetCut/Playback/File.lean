import SheetCut.Files.Access
import SheetCut.Playback.Program

/-!
# Program files

Reading a program from a file, and sampling it in one go.
-/

namespace SheetCut

inductive ReadError where
  | parse (e : ProgramError)
  | sampling (e : SamplingError Float)
  | file (e : FileError)

namespace ReadError

def message : ReadError → String
  | parse e => e.message
  | sampling e => e.message
  | file e => "I/O error: " ++ e.message

def isParse : ReadError → Bool
  | parse _ => true
  | _ => false

def isSampling : ReadError → Bool
  | sampling _ => true
  | _ => false

end ReadError

variable {m : Type → Type} [Monad m] [FileAccess m]

def Program.ofFile? (path : String) (keepCommands : Bool) :
    m (Except ReadError (Program Float)) := do
  match ← readText path with
  | .error e => return .error (.file e)
  | .ok text => return (Program.ofText? text keepCommands).mapError .parse

/-- The playback points of the program in a file. The step size is checked before the file is
read. -/
def sampleFile (path : String) (step : Float) : m (Except ReadError (List (PathPoint Float))) := do
  match Sampler.ofStep? step with
  | .error e => return .error (.sampling e)
  | .ok sampler =>
    match ← Program.ofFile? path false with
    | .error e => return .error e
    | .ok program => return (sampler.sampleProgram program).mapError .sampling

end SheetCut
